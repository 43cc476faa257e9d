import TaskPlanner.Inventory
import TaskPlanner.PlanError
import TaskPlanner.Schedule

/-!
# Ordering

The ordering of a plan turns its inventory into a schedule.

* An item runs after its dependencies, and after the items it finalizes.
* A batch after the first has a marker. The marker waits for the requested items of
  the batch before and for the marker before; the items of its batch wait for it,
  except those that an earlier batch needs.
* A finalizer is placed right behind the item it finalizes as soon as its other
  predecessors allow; a marker is placed as soon as it can be. Other ties go to the
  item that was discovered first.
-/

set_option autoImplicit false

namespace TaskPlanner

/-! ## Markers -/

namespace Inventory

def addMarker (inventory : Inventory) (ordinal : Ordinal) : Inventory :=
  { inventory with
    catalog := inventory.catalog.update (.marker ordinal) fun node =>
      { node.join (some ordinal) with required := true, processed := true }
    index := inventory.index.insert (.marker ordinal) }

/-- The ordinals of the batches that have a marker: all but the first. -/
def markedOrdinals (inventory : Inventory) : List Ordinal := inventory.batches.ordinals.tail

/-- Put the markers of all batches after the first into the index. -/
def withMarkers (inventory : Inventory) : Inventory :=
  inventory.markedOrdinals.foldl addMarker inventory

/-! ## Constraints -/

/-- What `item` asks for: to wait for its dependencies, and that its finalizers wait
for it. Items outside the index never block anything. -/
def relationEdgesOf (inventory : Inventory) (item : WorkItem) : List Edge :=
  (((inventory.relations item).dependencies.filter (· ∈ inventory.index)).map
      fun dependency => { source := dependency, target := item, kind := .dependency }) ++
    ((inventory.relations item).finalizers.filter (· ∈ inventory.index)).map
      fun finalizer => { source := item, target := finalizer, kind := .finalizes }

/-- The constraints between dependencies, dependents and finalizers. -/
def relationGraph (inventory : Inventory) : Graph :=
  (inventory.index.items.flatMap inventory.relationEdgesOf).foldl
    (fun graph edge => graph.connect edge.source edge.target edge.kind)
    { vertices := inventory.index.items }

end Inventory

/-! ## Effective groups -/

/-- The earliest batch known to need each item, latest findings first. -/
structure GroupTable where
  entries : List (WorkItem × Ordinal) := []
deriving DecidableEq, Repr, Inhabited

namespace GroupTable

def find? (table : GroupTable) (item : WorkItem) : Option Ordinal := table.entries.lookup item

def insert (table : GroupTable) (item : WorkItem) (group : Ordinal) : GroupTable :=
  { entries := (item, group) :: table.entries }

def insertAll (table : GroupTable) (items : List WorkItem) (group : Ordinal) : GroupTable :=
  items.foldl (fun current item => current.insert item group) table

def ofOwn (own : WorkItem → Option Ordinal) (items : List WorkItem) : GroupTable :=
  items.foldl (fun current item => match own item with
    | some group => current.insert item group
    | none => current) {}

/-- Hand the groups of the queued items to what those items wait for, as long as that
makes a group earlier, for at most the given number of steps. -/
def settle (graph : Graph) : Nat → List WorkItem → GroupTable → GroupTable
  | 0, _, table => table
  | _ + 1, [], table => table
  | steps + 1, item :: queue, table =>
      match table.find? item with
      | none => settle graph steps queue table
      | some group =>
          let lowered := ((graph.predecessors item).map (·.1)).filter fun before =>
            Node.accepts group (table.find? before)
          settle graph steps (queue ++ lowered) (table.insertAll lowered group)

end GroupTable

/-- The earliest batch that needs each item: the least group among the item and
everything that waits for it. Each item's group can get earlier at most once per
vertex, which bounds the number of steps. -/
def Graph.effectiveGroups (graph : Graph) (own : WorkItem → Option Ordinal) : GroupTable :=
  GroupTable.settle graph (graph.vertices.length + graph.vertices.length * graph.vertices.length)
    (graph.vertices.filter fun item => (own item).isSome) (.ofOwn own graph.vertices)

namespace Inventory

def effectiveGroups (inventory : Inventory) : GroupTable :=
  inventory.relationGraph.effectiveGroups fun item => (inventory.node item).group

/-! ## Batch constraints -/

/-- Whether the marker of a batch holds `item` back: the item is no marker, belongs to
the batch, and no earlier batch needs it. -/
def isHeldBack (inventory : Inventory) (effective : GroupTable) (ordinal : Ordinal)
    (item : WorkItem) : Bool :=
  !item.isMarker && decide ((inventory.node item).group = some ordinal) &&
    decide (effective.find? item = some ordinal)

/-- The constraints of one marker: it waits for the requested items of the batch
`previous` and for the marker before it, and what it holds back waits for it. -/
def markerEdges (inventory : Inventory) (effective : GroupTable)
    (before : Option Ordinal) (previous ordinal : Ordinal) : List Edge :=
  let marker := WorkItem.marker ordinal
  (((inventory.batches.entriesOf previous).filter (· ∈ inventory.index)).map
      fun entry => { source := entry, target := marker, kind := .ordinal }) ++
    (before.toList.map
      fun earlier => { source := .marker earlier, target := marker, kind := .ordinal }) ++
    (inventory.index.items.filter (inventory.isHeldBack effective ordinal)).map
      fun item => { source := marker, target := item, kind := .ordinal }

def markerEdgesAll (inventory : Inventory) (effective : GroupTable) :
    Option Ordinal → List (Ordinal × Ordinal) → List Edge
  | _, [] => []
  | before, (previous, ordinal) :: rest =>
      inventory.markerEdges effective before previous ordinal ++
        inventory.markerEdgesAll effective (some ordinal) rest

def batchEdges (inventory : Inventory) : List Edge :=
  inventory.markerEdgesAll inventory.effectiveGroups none inventory.batches.successions

def constraintGraph (inventory : Inventory) : Graph :=
  inventory.batchEdges.foldl
    (fun graph edge => graph.connect edge.source edge.target edge.kind) inventory.relationGraph

end Inventory

/-! ## The order -/

/-- An order in the making. -/
structure Lineup where
  /-- The items placed so far, in order. -/
  placed : List WorkItem := []
  ready : List WorkItem := []
  /-- Released items that are placed before all others, in order of release. -/
  urgent : List WorkItem := []
deriving DecidableEq, Repr

def Graph.isReleased (graph : Graph) (placed : List WorkItem) (item : WorkItem) : Bool :=
  (graph.predecessors item).all (·.1 ∈ placed)

namespace Lineup

def initial (graph : Graph) : Lineup :=
  { ready := graph.vertices.filter (graph.isReleased []) }

/-- The item to place next: the urgent item released first, or else the first vertex that
is ready. -/
def next? (graph : Graph) (lineup : Lineup) : Option WorkItem :=
  lineup.urgent.head?.or (graph.vertices.find? (· ∈ lineup.ready))

/-- Place `item` and release what waited for nothing else. -/
def place (graph : Graph) (isUrgent : WorkItem → WorkItem → Bool) (lineup : Lineup)
    (item : WorkItem) : Lineup :=
  let placed := lineup.placed ++ [item]
  let waiting := graph.successors item
  let released := graph.vertices.filter fun other =>
    decide (other ∈ waiting) && graph.isReleased placed other
  { placed
    ready := lineup.ready.filter (· ≠ item) ++ released.filter fun other => !isUrgent item other
    urgent := lineup.urgent.filter (· ≠ item) ++ released.filter (isUrgent item) }

/-- Place at most the given number of items. -/
def run (graph : Graph) (isUrgent : WorkItem → WorkItem → Bool) : Nat → Lineup → Lineup
  | 0, lineup => lineup
  | steps + 1, lineup =>
      match lineup.next? graph with
      | none => lineup
      | some item => run graph isUrgent steps (lineup.place graph isUrgent item)

end Lineup

/-- The vertices in an order that respects all edges. `isUrgent item other` says that
`other`, once `item` releases it, goes before everything that is not urgent. -/
def Graph.linearize (graph : Graph) (isUrgent : WorkItem → WorkItem → Bool) :
    Except CycleReport (List WorkItem) :=
  let placed := (Lineup.run graph isUrgent graph.vertices.length (.initial graph)).placed
  if placed.length = graph.vertices.length then .ok placed
  else .error (.incomplete placed.length graph.vertices.length)

namespace Inventory

def isUrgent (inventory : Inventory) (item other : WorkItem) : Bool :=
  decide (other ∈ inventory.markedOrdinals.map WorkItem.marker) ||
    decide (other ∈ (inventory.relations item).finalizers)

/-- The items of the index in the order of the schedule. The inventory has its markers. -/
def linearOrder (inventory : Inventory) : Except CycleReport (List WorkItem) :=
  let graph := inventory.constraintGraph
  match graph.cycle? with
  | some items => .error (.component items)
  | none => graph.linearize inventory.isUrgent

/-- The items of the index that `item` finalizes, as often as they name it. -/
def finalizedBy (inventory : Inventory) (item : WorkItem) : List WorkItem :=
  inventory.index.items.flatMap fun target =>
    ((inventory.relations target).finalizers.filter (· = item)).map fun _ => target

def scheduledNode (inventory : Inventory) (graph : Graph) (item : WorkItem) : ScheduledNode :=
  let isEntry := decide (item ∈ inventory.entries)
  { item
    group := (inventory.node item).group
    predecessors := graph.predecessors item
    finalizes := inventory.finalizedBy item
    locks := (inventory.relations item).locks
    isEntry
    isFinalizerOnly :=
      decide (item ∈ inventory.finalizers) && !isEntry && !graph.isDependedUpon item
    isExecuted := (inventory.node item).executed }

def schedule (inventory : Inventory) : Except CycleReport Schedule :=
  match inventory.linearOrder with
  | .error report => .error report
  | .ok order =>
      .ok (.ofNodes (order.map (inventory.scheduledNode inventory.constraintGraph))
        inventory.filtered.items)

end Inventory

end TaskPlanner
