import TaskPlanner.BuildFile
import TaskPlanner.CommandLine
import TaskPlanner.Plan.Submission
import TaskPlanner.TaskFilter

/-!
# Plans for a build file

The plan that a command line asks for. Each task that it names is a batch of its own, so
that the tasks run in the order in which they are named; without a task, the default
tasks of the build make up one batch.
-/

set_option autoImplicit false

namespace TaskPlanner

/-- Why there is no plan for a command line. -/
inductive PlanningError where
  | invalidFilter (fault : FilterFault)
  | plan (error : PlanError)
deriving DecidableEq, Repr

def PlanningError.message : PlanningError → String
  | invalidFilter fault => "Invalid task filter: " ++ fault.message
  | plan error => error.message

namespace BuildFile

/-- The globs of the tasks to leave out, those of the build first. -/
def exclusions (file : BuildFile) (arguments : Arguments) : List String :=
  file.build.exclude ++ arguments.exclude

def emptyPlan (file : BuildFile) (arguments : Arguments) : Except PlanningError Plan :=
  match TaskFilter.globs (file.exclusions arguments) with
  | .error fault => .error (.invalidFilter fault)
  | .ok globs =>
      .ok
        { name := file.build.name
          accepts := TaskFilter.excluding globs
          continueOnFailure := arguments.continueOnFailure || file.build.continueOnFailure }

def batches (file : BuildFile) (arguments : Arguments) : List (List String) :=
  if arguments.tasks.isEmpty then [file.defaultTasks] else arguments.tasks.map fun task => [task]

/-- Submit batches in order, up to the first that the plan does not take. A batch with a
task that the build does not define is refused as a whole. -/
def submitAll (file : BuildFile) : List (List String) → Plan → Except PlanningError Plan
  | [], plan => .ok plan
  | batch :: rest, plan =>
      match batch.find? fun task => !file.defines task with
      | some task => .error (.plan (.unknownTask task))
      | none =>
          let attempt := plan.submit file.resolver batch none
          match attempt.result with
          | .error error => .error (.plan error)
          | .ok () => submitAll file rest attempt.plan

def planFor (file : BuildFile) (arguments : Arguments) : Except PlanningError Plan :=
  match file.emptyPlan arguments with
  | .error error => .error error
  | .ok plan => file.submitAll (file.batches arguments) plan

end BuildFile

end TaskPlanner
