import TaskPlanner.LockTable
import TaskPlanner.NodeState
import TaskPlanner.Schedule

/-!
# Executions

An execution runs a schedule that does not change any more. It hands out the items
that may run, takes their outcomes, and settles what need not or cannot run: markers,
work done before, items whose dependencies failed, finalizers with nothing to
finalize, and, after a stop, nearly everything.

`Execution.state` is the view of an execution: the state of each item. Everything else
is kept so that no change has to look at all items again: the items that are ready,
the number of items that are not finished, and the finalizers to prefer.
-/

set_option autoImplicit false

namespace TaskPlanner

/-- A call of a completion handler. -/
structure Notification where
  handler : String
  item : WorkItem
  task : String
  outcome : TaskOutcome
deriving DecidableEq, Repr

/-- A schedule being run. -/
structure Execution where
  name : String
  schedule : Schedule
  policy : FailurePolicy
  /-- The completion handlers, in order of registration. -/
  handlers : List String := []
  /-- Every change of state, the latest first. -/
  history : List (WorkItem × NodeState) := []
  ready : List WorkItem := []
  /-- How many items have not reached a final state. -/
  pending : Nat
  /-- Finalizers of finished items, to be offered before anything else. -/
  preferred : List ScheduledNode := []
  /-- No new work starts, except finalizers of executed items. -/
  isAborted : Bool := false
  isClosed : Bool := false
deriving DecidableEq, Repr

/-- What to do next. -/
inductive Selection where
  | ready (node : ScheduledNode)
  /-- Nothing can start until a running item finishes. -/
  | waiting
  | finished
deriving DecidableEq, Repr

namespace Execution

/-! ## States -/

def stateIn (item : WorkItem) : List (WorkItem × NodeState) → NodeState
  | [] => .waiting
  | (other, state) :: rest => if other = item then state else stateIn item rest

def state (execution : Execution) (item : WorkItem) : NodeState :=
  stateIn item execution.history

def record (execution : Execution) (item : WorkItem) (state : NodeState) : Execution :=
  { execution with
    history := (item, state) :: execution.history
    pending :=
      if !(execution.state item).isTerminal && state.isTerminal then execution.pending - 1
      else execution.pending
    ready :=
      if state = .waiting then execution.ready else execution.ready.filter (· ≠ item) }

def markReady (execution : Execution) (item : WorkItem) : Execution :=
  if item ∈ execution.ready then execution
  else { execution with ready := item :: execution.ready }

theorem state_record (execution : Execution) (item other : WorkItem) (state : NodeState) :
    (execution.record item state).state other =
      if other = item then state else execution.state other := by
  simp only [Execution.state, record, stateIn]
  by_cases same : item = other
  · simp [same]
  · simp [same, Ne.symm same]

@[simp] theorem state_markReady (execution : Execution) (item other : WorkItem) :
    (execution.markReady item).state other = execution.state other := by
  unfold markReady
  split <;> rfl

/-! ## What the predecessors of an item allow -/

def isSatisfied (kind : EdgeKind) (state : NodeState) : Bool :=
  match kind with
  | .dependency => decide (state = .succeeded)
  | .finalizes | .ordinal => state.isTerminal

def isReady (execution : Execution) (node : ScheduledNode) : Bool :=
  node.predecessors.all fun (before, kind) => isSatisfied kind (execution.state before)

/-- The state into which one predecessor in a final state forces a waiting item. -/
def forcedBy (kind : EdgeKind) (state : NodeState) : Option NodeState :=
  match kind, state with
  | .dependency, .failed _ => some .skipped
  | .dependency, .skipped => some .skipped
  | .dependency, .notRun => some .notRun
  | _, _ => none

/-- The state into which the first such predecessor forces a waiting node. -/
def forced? (execution : Execution) (node : ScheduledNode) : Option NodeState :=
  node.predecessors.findSome? fun (before, kind) => forcedBy kind (execution.state before)

def finalizesExecuted (execution : Execution) (node : ScheduledNode) : Bool :=
  node.finalizes.any fun target =>
    (execution.state target).isExecuted || decide (execution.state target = .running)

/-- Whether a node is there only to finalize items that have all ended unexecuted. -/
def hasNothingToFinalize (execution : Execution) (node : ScheduledNode) : Bool :=
  node.isFinalizerOnly && !node.finalizes.isEmpty &&
    node.finalizes.all fun target =>
      (execution.state target).isTerminal && !(execution.state target).isExecuted

/-- The final state that a waiting node reaches without running, if it is settled. -/
def settled? (execution : Execution) (node : ScheduledNode) : Option NodeState :=
  if execution.isAborted && !execution.finalizesExecuted node then some .notRun
  else
    match execution.forced? node with
    | some state => some state
    | none =>
        if execution.hasNothingToFinalize node then some .skipped
        else if (node.isMarker || node.isExecuted) && execution.isReady node then some .succeeded
        else none

/-! ## Propagation -/

/-- The nodes that have to wait for `item`, in the order of the schedule. -/
def dependents (execution : Execution) (item : WorkItem) : List ScheduledNode :=
  execution.schedule.nodes.filter fun node => node.predecessors.any (·.1 = item)

/-- The nodes that finalize `item`, in the order of the schedule. -/
def finalizersOf (execution : Execution) (item : WorkItem) : List ScheduledNode :=
  execution.schedule.nodes.filter fun node => decide (item ∈ node.finalizes)

/-- Examine the queued nodes, and the dependents of those that settle, for at most the
given number of steps. -/
def propagate : Nat → List ScheduledNode → Execution → Execution
  | 0, _, execution => execution
  | _ + 1, [], execution => execution
  | steps + 1, node :: queue, execution =>
      if execution.state node.item ≠ .waiting then propagate steps queue execution
      else
        match execution.settled? node with
        | some state =>
            propagate steps (queue ++ execution.dependents node.item)
              (execution.record node.item state)
        | none =>
            propagate steps queue
              (if execution.isReady node then execution.markReady node.item else execution)

/-- Examine `nodes` and whatever their settling affects. Each item settles once and then
queues its dependents, so the number of constraints bounds the number of steps. -/
def reexamine (execution : Execution) (nodes : List ScheduledNode) : Execution :=
  propagate (nodes.length + execution.schedule.constraintCount) nodes execution

def start (name : String) (schedule : Schedule) (policy : FailurePolicy)
    (handlers : List String) : Execution :=
  let fresh : Execution := { name, schedule, policy, handlers, pending := schedule.nodes.length }
  fresh.reexamine schedule.nodes

/-! ## Selecting -/

/-- Whether `node` can start now: it waits, its predecessors let it, and its resources are
free. -/
def canStart (execution : Execution) (locks : LockTable) (node : ScheduledNode) : Bool :=
  decide (execution.state node.item = .waiting) && execution.isReady node &&
    locks.areFreeFor node.item node.locks

/-- The first preferred node that can start, and the preferred nodes behind it. -/
def takePreferred (execution : Execution) (locks : LockTable) :
    List ScheduledNode → Option (ScheduledNode × List ScheduledNode)
  | [] => none
  | node :: rest =>
      if execution.canStart locks node then some (node, rest)
      else takePreferred execution locks rest

def candidates (execution : Execution) : List ScheduledNode :=
  execution.schedule.nodes.filter fun node => decide (node.item ∈ execution.ready)

/-- The node that is handed out next, with the preferred nodes that are left. -/
def choose (execution : Execution) (locks : LockTable) :
    Option ScheduledNode × List ScheduledNode :=
  match execution.takePreferred locks execution.preferred with
  | some (node, rest) => (some node, rest)
  | none => (execution.candidates.find? (execution.canStart locks), [])

def select (execution : Execution) (locks : LockTable) : Selection × Execution × LockTable :=
  if execution.pending = 0 then (.finished, execution, locks)
  else
    let (chosen, preferred) := execution.choose locks
    let offered := { execution with preferred }
    match chosen with
    | some node =>
        (.ready node, offered.record node.item .running, locks.acquire node.item node.locks)
    | none => (.waiting, offered, locks)

/-! ## Finishing -/

/-- Stop new work if the policy says so, and examine what a finished item affects. -/
def settleAfter (execution : Execution) (item : WorkItem) (outcome : TaskOutcome) : Execution :=
  if !outcome.isSuccess && decide (execution.policy = .stop) && !execution.isAborted then
    ({ execution with isAborted := true } : Execution).reexamine execution.schedule.nodes
  else execution.reexamine (execution.dependents item)

def notifications (execution : Execution) (item : WorkItem) (outcome : TaskOutcome) :
    List Notification :=
  match item.taskName? with
  | none => []
  | some task => execution.handlers.map fun handler => { handler, item, task, outcome }

/-- Take the outcome of a scheduled node. A node that is not running is left alone. -/
def finishNode (execution : Execution) (locks : LockTable) (node : ScheduledNode)
    (outcome : TaskOutcome) : Execution × LockTable × List Notification :=
  if execution.state node.item ≠ .running then (execution, locks, [])
  else
    let recorded := execution.record node.item (.ofOutcome outcome)
    let settled := recorded.settleAfter node.item outcome
    ({ settled with preferred := settled.preferred ++ settled.finalizersOf node.item },
      locks.release node.item node.locks, execution.notifications node.item outcome)

/-- Take the outcome of an item; `none` if it is not scheduled. -/
def finish? (execution : Execution) (locks : LockTable) (item : WorkItem)
    (outcome : TaskOutcome) : Option (Execution × LockTable × List Notification) :=
  (execution.schedule.node? item).map fun node => execution.finishNode locks node outcome

/-! ## Stopping -/

/-- The scheduled items that are in the given state, in the order of the schedule. -/
def itemsIn (execution : Execution) (state : NodeState) : List WorkItem :=
  execution.schedule.items.filter fun item => decide (execution.state item = state)

/-- Stop: waiting items will not run, and running items are left to finish. -/
def close (execution : Execution) : Execution :=
  if execution.isClosed then execution
  else
    (execution.itemsIn .waiting).foldl (fun current item => current.record item .notRun)
      { execution with isClosed := true, isAborted := true }

/-! ## Views -/

def isFinished (execution : Execution) : Bool := decide (execution.pending = 0)

/-- The state of each scheduled item, in the order of the schedule. -/
def states (execution : Execution) : List NodeState :=
  execution.schedule.items.map execution.state

/-- The tasks of the build at hand whose work was performed by this execution. -/
def executedItems (execution : Execution) : List WorkItem :=
  execution.schedule.items.filter fun item =>
    (execution.state item).isExecuted && item.taskName?.isSome

/-- The items still of interest to a reader of the progress: no markers, and of other
builds only what is still to come. -/
def snapshot (execution : Execution) : List ScheduledNode :=
  execution.schedule.nodes.filter fun node =>
    match node.item with
    | .task _ => true
    | .delegated _ _ => !(node.isExecuted || (execution.state node.item).isTerminal)
    | .marker _ => false

end Execution

end TaskPlanner
