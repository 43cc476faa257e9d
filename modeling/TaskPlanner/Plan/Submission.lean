import TaskPlanner.Plan.Discovery

/-!
# Submission

Requests to a plan. The order in which one request names its items does not matter for
anything but the numbers of new items.
-/

set_option autoImplicit false

namespace TaskPlanner.Plan

/-- Enter `item` into the batch `ordinal` as a requested item. -/
def request (ordinal : Ordinal) (plan : Plan) (item : WorkItem) : Plan :=
  { plan with
    catalog := plan.catalog.update item (·.join (some ordinal))
    batches := plan.batches.addEntry ordinal item
    entries := plan.entries.insert item }

/-- Make room for a batch: the next request without an ordinal comes behind it, as far as
ordinals go. -/
def openBatch (plan : Plan) (ordinal : Ordinal) : Plan :=
  { plan with
    nextOrdinal := if plan.nextOrdinal < ordinal.next then ordinal.next else plan.nextOrdinal
    needsOrdering := true }

/-- Request items of any kind, as the batch `ordinal?` or, without one, as the next batch. -/
def addEntries (resolver : Resolver) (plan : Plan) (items : List WorkItem)
    (ordinal? : Option Ordinal) : Attempt Unit :=
  if plan.isFinalized then ⟨.error .alreadyFinalized, plan⟩
  else
    let ordinal := ordinal?.getD plan.nextOrdinal
    let arranged := WorkItem.arranged items
    let requested := arranged.foldl (request ordinal) (plan.openBatch ordinal)
    requested.expand resolver (arranged.map fun item => ⟨item, .entry⟩)

/-- Request tasks of the build at hand, as the batch `ordinal?` or, without one, as the
next batch. -/
def submit (resolver : Resolver) (plan : Plan) (tasks : List String)
    (ordinal? : Option Ordinal) : Attempt Unit :=
  if plan.isFinalized then ⟨.error .alreadyFinalized, plan⟩
  else
    let items := tasks.map WorkItem.task
    (plan.mention items).addEntries resolver items ordinal?

end TaskPlanner.Plan
