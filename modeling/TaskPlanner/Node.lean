import TaskPlanner.WorkItem

/-!
# Nodes

What a plan knows about one work item: the batch it belongs to, how far its
discovery has come, and its relations to other items.
-/

set_option autoImplicit false

namespace TaskPlanner

/-- The relations of one item to others, and the locks it holds while it runs. -/
structure Relations where
  hardSuccessors : List WorkItem := []
  /-- Items to discover and to run before this item, in natural order. -/
  dependencies : List WorkItem := []
  finalizers : List WorkItem := []
  /-- Names of the resources the item needs for itself while it runs. -/
  locks : List String := []
deriving DecidableEq, Repr, Inhabited

/-- What a plan knows about one item. -/
structure Node where
  /-- The batch the item belongs to, if any. -/
  group : Option Ordinal := none
  required : Bool := false
  filtered : Bool := false
  processed : Bool := false
  /-- The item ran in an earlier plan and cannot run again. Survives `Node.reset`. -/
  cannotRun : Bool := false
  /-- The work was done before this plan, here or in another build. Survives `Node.reset`. -/
  executed : Bool := false
  relations : Relations := {}
deriving DecidableEq, Repr, Inhabited

namespace Node

/-- Whether belonging to `current` leaves room for joining the batch `group`: a node
joins its first batch, and later only an earlier one. -/
def accepts (group : Ordinal) : Option Ordinal → Bool
  | none => true
  | some current => decide (group < current)

/-- Join the batch `group`, unless the node already belongs to that batch or an
earlier one. -/
def join (node : Node) (group : Option Ordinal) : Node :=
  match group with
  | none => node
  | some ordinal =>
      if accepts ordinal node.group then { node with group := some ordinal } else node

def reset (node : Node) : Node :=
  { cannotRun := node.cannotRun, executed := node.executed }

/-- Nothing of a single plan is left in the node. -/
structure IsClean (node : Node) : Prop where
  group : node.group = none
  required : node.required = false
  filtered : node.filtered = false
  processed : node.processed = false
  relations : node.relations = {}

theorem isClean_reset (node : Node) : node.reset.IsClean :=
  ⟨rfl, rfl, rfl, rfl, rfl⟩

end Node

end TaskPlanner
