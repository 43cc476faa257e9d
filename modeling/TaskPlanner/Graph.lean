import TaskPlanner.WorkItem

/-!
# Constraint graphs

The vertices of a constraint graph are the items of a plan in the order of the
index; an edge says that its target has to wait for its source, and how strictly.
At most one edge joins two items, the strictest that was asked for, at the place
where the first was added. The order of vertices and edges decides the order of
every answer.

`Graph.Reaches` says what waits for what, and `Graph.cycle?` finds items that wait
for each other.
-/

set_option autoImplicit false

namespace TaskPlanner

/-- Why one item has to wait for another. -/
inductive EdgeKind where
  | dependency
  /-- The source is finalized by the target; any outcome will do. -/
  | finalizes
  /-- The source belongs to an earlier batch; any outcome will do. -/
  | ordinal
deriving DecidableEq, Repr, Inhabited

def EdgeKind.strength : EdgeKind → Nat
  | dependency => 2
  | finalizes => 1
  | ordinal => 0

def EdgeKind.strictest (left right : EdgeKind) : EdgeKind :=
  if left.strength < right.strength then right else left

/-- `target` has to wait for `source`. -/
structure Edge where
  source : WorkItem
  target : WorkItem
  kind : EdgeKind
deriving DecidableEq, Repr

/-- Items and the constraints among them, both in the order in which they were added. -/
structure Graph where
  vertices : List WorkItem := []
  edges : List Edge := []
deriving DecidableEq, Repr, Inhabited

namespace Graph

/-- Add an edge to a list, or make the edge that joins the same items stricter. -/
def connectIn (edge : Edge) : List Edge → List Edge
  | [] => [edge]
  | head :: rest =>
      if head.source = edge.source ∧ head.target = edge.target then
        { head with kind := head.kind.strictest edge.kind } :: rest
      else head :: connectIn edge rest

def connect (graph : Graph) (source target : WorkItem) (kind : EdgeKind) : Graph :=
  { graph with edges := connectIn { source, target, kind } graph.edges }

/-- What `item` has to wait for, with the reasons. -/
def predecessors (graph : Graph) (item : WorkItem) : List (WorkItem × EdgeKind) :=
  (graph.edges.filter (·.target = item)).map fun edge => (edge.source, edge.kind)

/-- What has to wait for `item`. -/
def successors (graph : Graph) (item : WorkItem) : List WorkItem :=
  (graph.edges.filter (·.source = item)).map (·.target)

/-- Whether something depends on `item`. -/
def isDependedUpon (graph : Graph) (item : WorkItem) : Bool :=
  graph.edges.any fun edge => edge.source = item && edge.kind = .dependency

/-- `target` waits for `source` directly. -/
def Adjacent (graph : Graph) (source target : WorkItem) : Prop :=
  ∃ edge ∈ graph.edges, edge.source = source ∧ edge.target = target

/-- `target` waits for `source` directly or through others. -/
inductive Reaches (graph : Graph) : WorkItem → WorkItem → Prop where
  | edge {source target : WorkItem} : graph.Adjacent source target → Reaches graph source target
  | trans {source middle target : WorkItem} :
      Reaches graph source middle → graph.Adjacent middle target → Reaches graph source target

def Acyclic (graph : Graph) : Prop := ∀ item, ¬ graph.Reaches item item

/-! ## Reachability -/

/-- The items of `found` and, for at most `rounds` rounds, those to which steps lead from the
items of `frontier`. -/
def spread (steps : WorkItem → List WorkItem) :
    Nat → List WorkItem → List WorkItem → List WorkItem
  | 0, found, _ => found
  | rounds + 1, found, frontier =>
      let fresh := ((frontier.flatMap steps).eraseDups).filter (· ∉ found)
      if fresh.isEmpty then found else spread steps rounds (found ++ fresh) fresh

/-- Everything that waits for `item`, directly or through others. -/
def descendants (graph : Graph) (item : WorkItem) : List WorkItem :=
  let children := (graph.successors item).eraseDups
  spread graph.successors graph.edges.length children children

/-- Everything that `item` waits for, directly or through others. -/
def ancestors (graph : Graph) (item : WorkItem) : List WorkItem :=
  let parents := ((graph.predecessors item).map (·.1)).eraseDups
  spread (fun other => (graph.predecessors other).map (·.1)) graph.edges.length parents parents

def isCyclic (graph : Graph) (item : WorkItem) : Bool := item ∈ graph.descendants item

/-! ## Cycles -/

/-- The state of a depth-first walk: the items met, and those left again, latest first. -/
structure DepthFirst where
  met : List WorkItem := []
  left : List WorkItem := []
deriving DecidableEq, Repr

/-- Walk everything that can be reached from `item`, at most `depth` steps away. -/
def walkFrom (graph : Graph) : Nat → WorkItem → DepthFirst → DepthFirst
  | 0, _, state => state
  | depth + 1, item, state =>
      if item ∈ state.met then state
      else
        let inner := (graph.successors item).foldl
          (fun current next => walkFrom graph depth next current)
          { state with met := item :: state.met }
        { inner with left := item :: inner.left }

/-- The items in the order in which a depth-first walk from the vertices leaves them. -/
def completionOrder (graph : Graph) : List WorkItem :=
  (graph.vertices.foldl
    (fun current item => graph.walkFrom (graph.vertices.length + 1) item current) {}).left.reverse

/-- Whether everything that waits for an item of the list comes before it or is among
`earlier`. -/
def isClosedOrder (graph : Graph) : List WorkItem → List WorkItem → Bool
  | [], _ => true
  | item :: later, earlier =>
      (graph.successors item).all (· ∈ earlier) && isClosedOrder graph later (item :: earlier)

/-- The items that wait for `item` and that `item` waits for, in the order of the vertices. -/
def component (graph : Graph) (item : WorkItem) : List WorkItem :=
  let below := graph.descendants item
  let above := graph.ancestors item
  graph.vertices.filter fun other =>
    other = item || (decide (other ∈ below) && decide (other ∈ above))

/-- The first item of which no later item of the list is in the same component. -/
def firstClosed? (graph : Graph) : List WorkItem → Option WorkItem
  | [] => none
  | item :: later =>
      let members := graph.component item
      if later.any (· ∈ members) then firstClosed? graph later else some item

/-- A set of items that wait for each other, in the order of the vertices. Of several,
the one that a depth-first walk completes first. There is none if the walk leaves every item
later than all that wait for it. -/
def cycle? (graph : Graph) : Option (List WorkItem) :=
  let order := graph.completionOrder
  if graph.isClosedOrder order [] then none
  else
    let cyclic := graph.vertices.filter graph.isCyclic
    let closed := graph.firstClosed? (order.filter (· ∈ cyclic))
    (closed.or cyclic.head?).map graph.component

end Graph

end TaskPlanner
