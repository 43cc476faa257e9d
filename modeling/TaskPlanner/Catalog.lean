import TaskPlanner.Node

/-!
# Catalog

The catalog records every work item a plan has ever mentioned, in the order of
the first mention, with its node. It outlives the plan's closing, so an item keeps
its number.

The view of a catalog is `Catalog.node`, which is total: an item that was never
mentioned has a fresh node. `Catalog.node_update` says what a change does to the
view, for every catalog; `Catalog.node_intern` says that a mention changes nothing.
-/

set_option autoImplicit false

namespace TaskPlanner

/-- Every mentioned item with its node, in the order of the first mention. -/
structure Catalog where
  entries : List (WorkItem × Node) := []
deriving DecidableEq, Repr, Inhabited

namespace Catalog

/-- The node of the first entry for `item`; a fresh node if there is none. -/
def nodeIn (item : WorkItem) : List (WorkItem × Node) → Node
  | [] => {}
  | (other, node) :: rest => if other = item then node else nodeIn item rest

/-- Change the first entry for `item`, adding one behind the others if there is none. -/
def updateIn (item : WorkItem) (change : Node → Node) :
    List (WorkItem × Node) → List (WorkItem × Node)
  | [] => [(item, change {})]
  | (other, node) :: rest =>
      if other = item then (other, change node) :: rest
      else (other, node) :: updateIn item change rest

def node (catalog : Catalog) (item : WorkItem) : Node := nodeIn item catalog.entries

def update (catalog : Catalog) (item : WorkItem) (change : Node → Node) : Catalog :=
  { entries := updateIn item change catalog.entries }

def intern (catalog : Catalog) (item : WorkItem) : Catalog := catalog.update item id

/-- Mention all of `items`, in order. -/
def internAll (catalog : Catalog) (items : List WorkItem) : Catalog :=
  items.foldl intern catalog

/-- Change the nodes of all of `items`, in order. -/
def updateAll (catalog : Catalog) (items : List WorkItem) (change : Node → Node) : Catalog :=
  items.foldl (fun current item => current.update item change) catalog

def items (catalog : Catalog) : List WorkItem := catalog.entries.map (·.1)

def size (catalog : Catalog) : Nat := catalog.entries.length

/-- The number of `item`: how many items were mentioned before it. -/
def number? (catalog : Catalog) (item : WorkItem) : Option Nat :=
  catalog.items.findIdx? (· = item)

/-- The number that `item` has, or that it gets if it is mentioned now. -/
def numberFor (catalog : Catalog) (item : WorkItem) : Nat :=
  (catalog.number? item).getD catalog.size

/-- How the number of `item` is written in a message. -/
def label (catalog : Catalog) (item : WorkItem) : String :=
  "#" ++ toString ((catalog.number? item).getD catalog.size)

/-- A change puts its item behind the others, unless the item is there already. -/
theorem items_update (catalog : Catalog) (item : WorkItem) (change : Node → Node) :
    (catalog.update item change).items =
      if item ∈ catalog.items then catalog.items else catalog.items ++ [item] := by
  show (updateIn item change catalog.entries).map (·.1) =
    if item ∈ catalog.entries.map (·.1) then catalog.entries.map (·.1)
    else catalog.entries.map (·.1) ++ [item]
  induction catalog.entries with
  | nil => rfl
  | cons entry rest ih =>
      obtain ⟨present, node⟩ := entry
      unfold updateIn
      by_cases here : present = item
      · simp [here]
      · rw [if_neg here, List.map_cons, ih]
        by_cases later : item ∈ rest.map (·.1)
        · simp [later]
        · simp [later, Ne.symm here]

theorem mem_items_update {catalog : Catalog} {item other : WorkItem} {change : Node → Node} :
    other ∈ (catalog.update item change).items ↔ other ∈ catalog.items ∨ other = item := by
  rw [items_update]
  split
  next listed => exact (or_iff_left_of_imp fun same => same ▸ listed).symm
  next => rw [List.mem_append, List.mem_singleton]

theorem nodeIn_updateIn (item other : WorkItem) (change : Node → Node)
    (entries : List (WorkItem × Node)) :
    nodeIn other (updateIn item change entries) =
      if other = item then change (nodeIn item entries) else nodeIn other entries := by
  induction entries with
  | nil => by_cases same : other = item <;> simp [updateIn, nodeIn, same, Ne.symm]
  | cons entry rest ih =>
      obtain ⟨present, node⟩ := entry
      by_cases here : present = item
      · subst here
        by_cases same : other = present
        · simp [updateIn, nodeIn, same]
        · simp [updateIn, nodeIn, same, Ne.symm same]
      · by_cases there : present = other
        · subst there
          simp [updateIn, nodeIn, here]
        · simp [updateIn, nodeIn, here, there, ih]

theorem node_update (catalog : Catalog) (item other : WorkItem) (change : Node → Node) :
    (catalog.update item change).node other =
      if other = item then change (catalog.node item) else catalog.node other :=
  nodeIn_updateIn item other change catalog.entries

@[simp] theorem node_update_self (catalog : Catalog) (item : WorkItem) (change : Node → Node) :
    (catalog.update item change).node item = change (catalog.node item) := by
  simp [node_update]

@[simp] theorem node_intern (catalog : Catalog) (item other : WorkItem) :
    (catalog.intern item).node other = catalog.node other := by
  by_cases same : other = item
  · subst same; simp [intern]
  · simp [intern, node_update, same]

@[simp] theorem node_internAll (catalog : Catalog) (items : List WorkItem) (other : WorkItem) :
    (catalog.internAll items).node other = catalog.node other := by
  induction items generalizing catalog with
  | nil => rfl
  | cons item rest ih => exact (ih (catalog.intern item)).trans (node_intern catalog item other)

end Catalog

end TaskPlanner
