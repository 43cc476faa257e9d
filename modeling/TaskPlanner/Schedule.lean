import TaskPlanner.Fingerprint
import TaskPlanner.Graph

/-!
# Schedules

A schedule lists the items of a plan in the order in which one worker would run
them. Each node carries everything that running it needs, so that an execution
refers to nothing else.
-/

set_option autoImplicit false

namespace TaskPlanner

/-- One item of a schedule. -/
structure ScheduledNode where
  item : WorkItem
  /-- The batch the item belongs to, if any. -/
  group : Option Ordinal := none
  /-- What the item has to wait for, in the order in which the reasons were found. -/
  predecessors : List (WorkItem × EdgeKind) := []
  finalizes : List WorkItem := []
  /-- The resources the item needs for itself while it runs. -/
  locks : List String := []
  isEntry : Bool := false
  /-- The item is in the plan only because it finalizes others. -/
  isFinalizerOnly : Bool := false
  isExecuted : Bool := false
deriving DecidableEq, Repr, Inhabited

def ScheduledNode.isMarker (node : ScheduledNode) : Bool := node.item.isMarker

/-- The items of a plan in order, and the items that its filter rejected. -/
structure Schedule where
  nodes : List ScheduledNode := []
  filtered : List WorkItem := []
  /-- A digest of the order. The schedule of a plan that was never put in order has none. -/
  fingerprint : String := ""
deriving DecidableEq, Repr, Inhabited

namespace Schedule

/-- The schedule that puts `nodes` in order. Its digest is that of the display names, markers
included. -/
def ofNodes (nodes : List ScheduledNode) (filtered : List WorkItem) : Schedule where
  nodes
  filtered
  fingerprint := Fingerprint.ofNames (nodes.map (·.item.displayName))

def items (schedule : Schedule) : List WorkItem := schedule.nodes.map (·.item)

def node? (schedule : Schedule) (item : WorkItem) : Option ScheduledNode :=
  schedule.nodes.find? (·.item = item)

def order (schedule : Schedule) : List String :=
  (schedule.nodes.filter (!·.isMarker)).map (·.item.displayName)

def position? (schedule : Schedule) (name : String) : Option Nat :=
  schedule.order.findIdx? (· = name)

def publicSize (schedule : Schedule) : Nat := schedule.nodes.countP (·.item.isPublic)

def constraintCount (schedule : Schedule) : Nat :=
  (schedule.nodes.flatMap (·.predecessors)).length

end Schedule

end TaskPlanner
