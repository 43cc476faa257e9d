import TaskPlanner.Execution.Summary
import TaskPlanner.Schedule

/-!
# Reports

What a user reads: the order in which a plan would run, and what became of its tasks.
-/

set_option autoImplicit false

namespace TaskPlanner

def padLeft (width : Nat) (text : String) : String :=
  String.ofList (List.replicate (width - text.length) ' ') ++ text

def padRight (width : Nat) (text : String) : String :=
  text ++ String.ofList (List.replicate (width - text.length) ' ')

/-- Lines as one text. Each of them ends with a line break. -/
def unlines (lines : List String) : String := String.join (lines.map (· ++ "\n"))

namespace Schedule

def orderLines (schedule : Schedule) : List String :=
  ("order (" ++ toString schedule.order.length ++ "):") ::
    schedule.order.mapIdx fun position name =>
      "  " ++ padLeft 3 (toString (position + 1)) ++ ". " ++ name

/-- The lines of what the filter rejected; none if it rejected nothing. -/
def exclusionLines (schedule : Schedule) : List String :=
  if schedule.filtered.isEmpty then []
  else
    "" :: ("excluded (" ++ toString schedule.filtered.length ++ "):") ::
      schedule.filtered.map fun item => "  - " ++ item.displayName

/-- The order of the plan `name`, shown without running anything. -/
def preview (schedule : Schedule) (name : String) : String :=
  unlines
    (["workplan dry-run: " ++ name, ""] ++ schedule.orderLines ++ schedule.exclusionLines ++
      ["", "fingerprint: " ++ schedule.fingerprint])

end Schedule

def NodeState.verdict : NodeState → String
  | succeeded => "ok"
  | failed code => "FAILED (exit " ++ toString code ++ ")"
  | skipped => "skipped"
  | notRun => "not run"
  | waiting | running => "interrupted"

namespace Summary

def line (result : String × NodeState) : String :=
  "  " ++ padRight 30 result.1 ++ " " ++ result.2.verdict

def totals (summary : Summary) : String :=
  toString summary.succeeded.length ++ " succeeded, " ++
    toString summary.failed.length ++ " failed, " ++
    toString summary.skipped.length ++ " skipped"

def report (summary : Summary) : String :=
  unlines ("" :: summary.results.map line ++ [summary.totals])

/-- The complaint about failures, if there are any. -/
def complaint? (summary : Summary) : Option String :=
  if summary.failed.isEmpty then none
  else
    some (toString summary.failed.length ++ " task(s) failed: " ++
      String.intercalate ", " summary.failed)

end Summary

end TaskPlanner
