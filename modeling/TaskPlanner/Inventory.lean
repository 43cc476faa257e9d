import TaskPlanner.Batches
import TaskPlanner.Resolver

/-!
# Inventory

What a plan has found out so far: a node for every item, the index of the items to
run, the items that were requested, the items the filter rejected, the finalizers,
and the batches. The ordering of a plan is a function of its inventory.
-/

set_option autoImplicit false

namespace TaskPlanner

/-- What a plan has found out so far. -/
structure Inventory where
  catalog : Catalog := {}
  /-- The items to run, in order of discovery. -/
  index : ItemSet := {}
  entries : ItemSet := {}
  filtered : ItemSet := {}
  finalizers : ItemSet := {}
  batches : Batches := {}
deriving DecidableEq, Repr, Inhabited

namespace Inventory

def node (inventory : Inventory) (item : WorkItem) : Node := inventory.catalog.node item

def relations (inventory : Inventory) (item : WorkItem) : Relations :=
  (inventory.node item).relations

def updateNode (inventory : Inventory) (item : WorkItem) (change : Node → Node) : Inventory :=
  { inventory with catalog := inventory.catalog.update item change }

end Inventory

end TaskPlanner
