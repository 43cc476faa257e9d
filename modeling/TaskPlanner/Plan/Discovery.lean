import TaskPlanner.Plan

/-!
# Discovery

Discovery expands requested items into everything they need. It walks depth first: an
item stays at the front of the queue while its dependencies are walked, and enters the
index when it is met there for the second time; its finalizers come right behind it.

`Walk.step` is one step of the walk, and `Walk.run` repeats it. The number of steps is
bounded because every item is entered at most once, and because a resolver can mention
only finitely many items.
-/

set_option autoImplicit false

namespace TaskPlanner

/-- How a walk came to an item. -/
inductive Link where
  | entry
  | dependency
  | finalizer
deriving DecidableEq, Repr

/-- An item to walk, and how the walk came to it. -/
structure Visit where
  item : WorkItem
  link : Link
deriving DecidableEq, Repr

/-- The state of a walk. -/
structure Walk where
  plan : Plan
  /-- The visits to come, the next one first. -/
  queue : List Visit
  visiting : List WorkItem := []
  /-- The visits of these items, the innermost first. -/
  path : List Visit := []

namespace Plan

/-- Leave `item` out because the filter rejects it. -/
def setAside (plan : Plan) (item : WorkItem) : Plan :=
  { plan with
    catalog := plan.catalog.update item fun node =>
      { node with processed := true, filtered := true }
    filtered := plan.filtered.insert item }

def inquire (plan : Plan) (item : WorkItem) : Plan :=
  { plan with
    catalog := plan.catalog.update item fun node => { node with required := true }
    inquiries := plan.inquiries.ask item }

/-- Take over what the resolver tells about `item`. Its hard successors join its batch. -/
def adopt (plan : Plan) (item : WorkItem) (resolution : Resolution) : Plan :=
  let related := (plan.catalog.record resolution).update item fun node =>
    { node with relations := resolution.relations }
  let group := (related.node item).group
  { plan with
    catalog := related.updateAll resolution.relations.hardSuccessors (·.join group) }

/-- Put `item`, whose dependencies have been walked, into the index. -/
def enroll (plan : Plan) (item : WorkItem) : Plan :=
  let catalog := plan.catalog.update item fun node => { node with processed := true }
  { plan with
    catalog
    index := plan.index.insert item
    finalizers := plan.finalizers.insertAll (catalog.node item).relations.finalizers }

end Plan

namespace Walk

/-- The cycle that a dependency on `target`, an item on the path, closes: the path from
`target` down, if every step of it is a dependency. A path with a finalizer step can
still be put in order. -/
def closedBy (path : List Visit) (target : WorkItem) : Option (List WorkItem) :=
  let inner := path.takeWhile (·.item ≠ target)
  if decide (inner.length < path.length) && inner.all (·.link = .dependency) then
    some (target :: (inner.map (·.item)).reverse ++ [target])
  else none

/-- The cycle that one of `dependencies` closes. The last one that closes any counts. -/
def closedByAny (path : List Visit) (dependencies : List WorkItem) : Option (List WorkItem) :=
  dependencies.reverse.findSome? (closedBy path)

/-- The result of one step. -/
inductive Progress where
  | going (walk : Walk)
  | stopped (attempt : Attempt Unit)

/-- Walk the dependencies of the item in front, before the item itself. -/
def enter (resolver : Resolver) (walk : Walk) (visit : Visit) : Progress :=
  let asking := walk.plan.inquire visit.item
  match resolver.answer visit.item with
  | .error fault => .stopped ⟨.error (.unresolved visit.item fault), asking⟩
  | .ok resolution =>
      let plan := asking.adopt visit.item resolution
      let visiting := visit.item :: walk.visiting
      let path := visit :: walk.path
      let dependencies := resolution.relations.dependencies
      match closedByAny path (dependencies.filter (· ∈ visiting)) with
      | some cycle => .stopped ⟨.error (.cycle (.path cycle)), plan⟩
      | none =>
          let ahead := (dependencies.filter (· ∉ visiting)).map fun item => ⟨item, .dependency⟩
          .going { plan, queue := ahead ++ walk.queue, visiting, path }

/-- Finish the item in front, whose dependencies have been walked. Its finalizers are
walked next, the last of them first. -/
def leave (walk : Walk) (visit : Visit) (rest : List Visit) : Walk :=
  let plan := walk.plan.enroll visit.item
  let visiting := walk.visiting.erase visit.item
  let finalizers := (plan.relations visit.item).finalizers
  let ahead := ((finalizers.filter (· ∉ visiting)).map fun item => ⟨item, .finalizer⟩).reverse
  { plan, queue := ahead ++ rest, visiting, path := walk.path.tail }

/-- One step: drop the visit in front if its item is finished or cannot run, leave the
item out if the filter rejects it, enter it at the first visit and finish it at the
second. -/
def step (resolver : Resolver) (walk : Walk) : Progress :=
  match walk.queue with
  | [] => .stopped ⟨.ok (), walk.plan⟩
  | visit :: rest =>
      let node := walk.plan.node visit.item
      if node.processed || node.cannotRun then .going { walk with queue := rest }
      else if !walk.plan.acceptsItem visit.item then
        .going { walk with plan := walk.plan.setAside visit.item, queue := rest }
      else if visit.item ∈ walk.visiting then .going (walk.leave visit rest)
      else walk.enter resolver visit

/-- Repeat the step, at most the given number of times. -/
def run (resolver : Resolver) : Nat → Walk → Attempt Unit
  | 0, walk => ⟨.ok (), walk.plan⟩
  | steps + 1, walk =>
      match walk.step resolver with
      | .going next => run resolver steps next
      | .stopped attempt => attempt

/-- A bound on the steps of a walk. Every step but the first visits drops the front of the
queue, and a first visit adds at most the fan-out of its item, counted together with
what the second visit adds. -/
def capacity (resolver : Resolver) (queue : List Visit) : Nat :=
  (queue.map (·.item) ++ resolver.mentionable).foldl
    (fun total item => total + 1 + resolver.fanOut item) queue.length

end Walk

/-- Expand the visits of `queue` into everything they need. -/
def Plan.expand (resolver : Resolver) (plan : Plan) (queue : List Visit) : Attempt Unit :=
  Walk.run resolver (Walk.capacity resolver queue) { plan, queue }

end TaskPlanner
