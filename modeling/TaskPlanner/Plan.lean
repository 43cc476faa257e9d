import TaskPlanner.PlanError
import TaskPlanner.Schedule.Ordering

/-!
# Plans

A plan collects requests for tasks, finds out what they need, and puts it in order.
It is reused: closing a plan makes it empty, but its items keep their numbers, and
what has run is not run again.

This module holds the state of a plan and the operations that ask no resolver.
Requests are in `TaskPlanner.Plan.Submission`.
-/

set_option autoImplicit false

namespace TaskPlanner

/-- What the resolver of a plan has been asked. -/
structure Inquiries where
  /-- The items it was asked about, in order. -/
  asked : List WorkItem := []
  /-- How many of these it was asked about before it was last dismissed. -/
  settled : Nat := 0
  dismissals : Nat := 0
deriving DecidableEq, Repr, Inhabited

namespace Inquiries

def ask (inquiries : Inquiries) (item : WorkItem) : Inquiries :=
  { inquiries with asked := inquiries.asked ++ [item] }

/-- Dismiss the resolver: what it remembers is not needed any more. -/
def dismiss (inquiries : Inquiries) : Inquiries :=
  { inquiries with
    settled := inquiries.asked.length
    dismissals := inquiries.dismissals + 1 }

/-- The items that the resolver was asked about since it was last dismissed. -/
def remembered (inquiries : Inquiries) : List WorkItem :=
  inquiries.asked.drop inquiries.settled

end Inquiries

/-- The state of a plan. -/
structure Plan extends Inventory where
  name : String := "build"
  /-- The task filter. It only matters for items that have not been discovered yet. -/
  accepts : String → Bool := fun _ => true
  /-- The ordinal of the next request that names none. -/
  nextOrdinal : Ordinal := .first
  /-- Something was added since the schedule was computed. -/
  needsOrdering : Bool := false
  isPrecomputed : Bool := false
  continueOnFailure : Bool := false
  /-- The completion handlers, in order of registration. -/
  handlers : List String := []
  /-- The schedule computed last. -/
  schedule? : Option Schedule := none
  isFinalized : Bool := false
  inquiries : Inquiries := {}

/-- The result of an operation on a plan, and the plan that it leaves. -/
structure Attempt (α : Type) where
  result : Except PlanError α
  plan : Plan

namespace Plan

/-- Whether the filter lets `item` into the plan. It decides about tasks of the build at
hand only. -/
def acceptsItem (plan : Plan) (item : WorkItem) : Bool :=
  item.taskName?.all plan.accepts

def updateNode (plan : Plan) (item : WorkItem) (change : Node → Node) : Plan :=
  { plan with catalog := plan.catalog.update item change }

def mention (plan : Plan) (items : List WorkItem) : Plan :=
  { plan with catalog := plan.catalog.internAll items }

def onComplete (plan : Plan) (handler : String) : Plan :=
  { plan with handlers := plan.handlers ++ [handler] }

def find (plan : Plan) (task : String) : Except PlanError WorkItem :=
  match plan.index.task? task with
  | some item => .ok item
  | none => .error (.notPlanned task)

/-! ## Ordering -/

/-- The schedule of the plan. It is computed anew only if something was added; the markers
of the batches enter the index even if the computation fails. -/
def determine (plan : Plan) : Attempt Schedule :=
  if plan.needsOrdering then
    let marked := plan.toInventory.withMarkers
    match marked.schedule with
    | .error report => ⟨.error (.cycle report), { plan with toInventory := marked }⟩
    | .ok schedule =>
        ⟨.ok schedule,
          { plan with toInventory := marked, schedule? := some schedule, needsOrdering := false }⟩
  else
    let schedule := plan.schedule?.getD {}
    ⟨.ok schedule, { plan with schedule? := some schedule }⟩

/-- Hand the plan out: compute its schedule, dismiss the resolver, and take no more
requests. -/
def finalize (plan : Plan) : Attempt Schedule :=
  let attempt := plan.determine
  match attempt.result with
  | .error error => ⟨.error error, attempt.plan⟩
  | .ok schedule =>
      ⟨.ok schedule,
        { attempt.plan with
          isFinalized := true
          inquiries := attempt.plan.inquiries.dismiss }⟩

/-! ## Seeding -/

/-- A node of a graph that was computed elsewhere. It refers to other nodes of the same
list by their positions. -/
structure Seed where
  item : WorkItem
  dependencies : List Nat := []
  finalizers : List Nat := []
  locks : List String := []
deriving DecidableEq, Repr

def itemsAt (items : List WorkItem) : List Nat → Except ResolutionFault (List WorkItem)
  | [] => .ok []
  | position :: rest =>
      match items[position]? with
      | none => .error (.missingPosition position)
      | some item => (itemsAt items rest).map (item :: ·)

/-- The relations that a seed states, given the items of all seeds. -/
def Seed.relations (seed : Seed) (items : List WorkItem) : Except ResolutionFault Relations :=
  match itemsAt items seed.dependencies with
  | .error fault => .error fault
  | .ok dependencies =>
      match itemsAt items seed.finalizers with
      | .error fault => .error fault
      | .ok finalizers =>
          .ok { hardSuccessors := dependencies, dependencies, finalizers, locks := seed.locks }

def plant (plan : Plan) (item : WorkItem) (relations : Relations) : Plan :=
  { plan with
    finalizers := plan.finalizers.insertAll relations.finalizers
    catalog := plan.catalog.update item fun node =>
      { node with relations, required := true, processed := true }
    entries := plan.entries.insert item
    index := plan.index.insert item }

/-- Plant the seeds in order, up to the first that refers to nothing. -/
def plantAll (items : List WorkItem) : List Seed → Plan → Attempt Unit
  | [], plan => ⟨.ok (), plan⟩
  | seed :: rest, plan =>
      match seed.relations items with
      | .error fault => ⟨.error (.unresolved seed.item fault), plan⟩
      | .ok relations => plantAll items rest (plan.plant seed.item relations)

/-- Seed an empty plan with a graph that was computed elsewhere. The items become entries
in the given order, whatever the filter says. -/
def seed (plan : Plan) (seeds : List Seed) : Attempt (List WorkItem) :=
  if plan.isFinalized then ⟨.error .alreadyFinalized, plan⟩
  else if plan.needsOrdering || plan.isPrecomputed || !plan.index.isEmpty then
    ⟨.error .alreadyScheduled, plan⟩
  else
    let items := seeds.map (·.item)
    let attempt := plantAll items seeds (plan.mention items)
    match attempt.result with
    | .error error => ⟨.error error, attempt.plan⟩
    | .ok () => ⟨.ok items, { attempt.plan with isPrecomputed := true, needsOrdering := true }⟩

/-! ## Shrinking and closing -/

/-- Cut the plan back to its first `count` items. The others are forgotten, so that a
later request can discover them again. -/
def retainFirst (plan : Plan) (count : Nat) : Attempt Unit :=
  if plan.isFinalized then ⟨.error .alreadyFinalized, plan⟩
  else
    let removed := plan.index.beyond count
    if removed.isEmpty then ⟨.ok (), plan⟩
    else
      ⟨.ok (),
        { plan with
          index := plan.index.keepFirst count
          catalog := plan.catalog.updateAll removed Node.reset
          needsOrdering := true }⟩

def listed (plan : Plan) : List WorkItem :=
  plan.index.items ++ plan.filtered.items ++ plan.entries.items ++ plan.finalizers.items

/-- Make the plan empty, so that it can be used again. Its name, filter and failure policy
stay, and the items in `executed` will not run in any later plan. -/
def close (plan : Plan) (executed : List WorkItem) : Plan :=
  { catalog :=
      (plan.catalog.updateAll executed fun node => { node with cannotRun := true }).updateAll
        plan.listed Node.reset
    name := plan.name
    accepts := plan.accepts
    continueOnFailure := plan.continueOnFailure
    inquiries := plan.inquiries.dismiss }

end Plan

end TaskPlanner
