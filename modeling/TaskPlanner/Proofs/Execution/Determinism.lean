import TaskPlanner.Execution.Summary
import TaskPlanner.Proofs.Execution.Finalizers

/-! How the items of a plan end does not depend on the order in which the work is done. Unless an
execution stops early, what a node waits for decides about its final state, and the schedule puts
that in front of the node. -/

set_option autoImplicit false

namespace TaskPlanner

/-- The final state that a state leads to, if the work comes to `outcome`. -/
def NodeState.endsAs (outcome : TaskOutcome) : NodeState → NodeState
  | running => ofOutcome outcome
  | state => state

theorem NodeState.endsAs_of_isTerminal {state : NodeState} (terminal : state.isTerminal = true)
    (outcome : TaskOutcome) : state.endsAs outcome = state := by
  cases state <;> first | rfl | cases terminal

/-- The final state of a node that is not skipped: there may be no work left to do. -/
def ScheduledNode.resultOf (node : ScheduledNode) (outcome : TaskOutcome) : NodeState :=
  if node.isMarker || node.isExecuted then .succeeded else .ofOutcome outcome

theorem ScheduledNode.resultOf_ne_notRun (node : ScheduledNode) (outcome : TaskOutcome) :
    node.resultOf outcome ≠ .notRun := by
  unfold resultOf
  split
  · exact NodeState.noConfusion
  · cases outcome <;> exact NodeState.noConfusion

namespace Execution

variable {initial execution before after first second : Execution} {node : ScheduledNode}
  {outcomeOf : WorkItem → TaskOutcome} {outcome : TaskOutcome} {state : NodeState}

/-! ## What the predecessors decide -/

theorem isBarred_congr
    (same : ∀ waited ∈ node.predecessors, after.state waited.1 = before.state waited.1)
    (targets : ∀ target ∈ node.finalizes, after.state target = before.state target) :
    after.IsBarred node ↔ before.IsBarred node := by
  have forced : after.forced? node = before.forced? node :=
    forced?_congr fun waited waits => by rw [same waited waits]
  have nothing : after.hasNothingToFinalize node = before.hasNothingToFinalize node :=
    hasNothingToFinalize_congr fun target finalized => by rw [targets target finalized]
  unfold IsBarred
  rw [forced, nothing]

/-- The final state in which the states of the others put a node whose work comes to `outcome`. -/
inductive Verdict (execution : Execution) (outcome : TaskOutcome) (node : ScheduledNode) :
    NodeState → Prop where
  | barred : execution.IsBarred node → Verdict execution outcome node .skipped
  | ready : ¬execution.IsBarred node → execution.isReady node = true →
      Verdict execution outcome node (node.resultOf outcome)

theorem Verdict.ne_notRun (verdict : execution.Verdict outcome node state) : state ≠ .notRun := by
  cases verdict with
  | barred => exact NodeState.noConfusion
  | ready => exact node.resultOf_ne_notRun outcome

theorem Verdict.unique {other : NodeState} (here : first.Verdict outcome node state)
    (there : second.Verdict outcome node other)
    (same : first.IsBarred node ↔ second.IsBarred node) : state = other := by
  cases here with
  | barred bars =>
      cases there with
      | barred => rfl
      | ready free => exact absurd (same.mp bars) free
  | ready free =>
      cases there with
      | barred bars => exact absurd (same.mpr bars) free
      | ready => rfl

/-- A verdict is final: it rests on states that do not change any more. -/
theorem Verdict.of_moves
    (moves : ∀ item, NodeState.Moves (before.state item) (after.state item))
    (targets : ∀ target ∈ node.finalizes, ∃ kind, (target, kind) ∈ node.predecessors)
    (verdict : before.Verdict outcome node state) : after.Verdict outcome node state := by
  cases verdict with
  | barred bars => exact .barred (isBarred_of_moves moves bars)
  | ready free ready =>
      have same : ∀ waited ∈ node.predecessors, after.state waited.1 = before.state waited.1 := by
        intro waited waits
        have satisfied := isReady_iff.mp ready waited waits
        exact (moves waited.1).eq_of_isTerminal (isTerminal_of_isSatisfied satisfied)
      have unbarred : ¬after.IsBarred node := by
        rw [isBarred_congr same fun target finalized => ?_]
        · exact free
        · obtain ⟨kind, waits⟩ := targets target finalized
          exact same (target, kind) waits
      exact .ready unbarred (isReady_of_moves moves ready)

/-! ## Executions that do not stop early -/

/-- Nothing stops the execution, and the states of the others put every node where it is unless it
waits. -/
structure Determined (outcomeOf : WorkItem → TaskOutcome) (execution : Execution) : Prop where
  persists : execution.policy = .proceed ∨ ∀ item, outcomeOf item = .success
  unaborted : execution.isAborted = false
  decided : ∀ node ∈ execution.schedule.nodes, execution.state node.item ≠ .waiting →
    execution.Verdict (outcomeOf node.item) node
      ((execution.state node.item).endsAs (outcomeOf node.item))

theorem Determined.ne_notRun (determined : execution.Determined outcomeOf)
    (member : node ∈ execution.schedule.nodes) : execution.state node.item ≠ .notRun := by
  intro left
  have verdict := determined.decided node member (by rw [left]; exact NodeState.noConfusion)
  rw [left] at verdict
  exact verdict.ne_notRun rfl

/-- What a determined execution settles without running it is decided. -/
theorem Determined.verdict (determined : execution.Determined outcomeOf)
    (wellFormed : execution.schedule.WellFormed) (member : node ∈ execution.schedule.nodes)
    (settled : execution.settled? node = some state) :
    execution.Verdict outcome node state := by
  unfold settled? at settled
  rw [determined.unaborted, Bool.false_and, if_neg Bool.false_ne_true] at settled
  split at settled
  next forcedState forced =>
    cases settled
    have bars : execution.IsBarred node := .inl (by simp [forced])
    obtain ⟨⟨item, kind⟩, waits, forcing⟩ := List.exists_of_findSome?_eq_some forced
    obtain ⟨other, present, same⟩ :=
      List.mem_map.mp (wellFormed.mem_items_of_predecessor member waits)
    have performed := determined.ne_notRun present
    rw [same] at performed
    dsimp only at forcing performed
    unfold forcedBy at forcing
    split at forcing
    next => cases forcing; exact .barred bars
    next => cases forcing; exact .barred bars
    next left => exact absurd left performed
    next => cases forcing
  next unforced =>
    split at settled
    next nothing =>
      cases settled
      exact .barred (.inr nothing)
    next something =>
      split at settled
      next passes =>
        cases settled
        obtain ⟨done, ready⟩ := Bool.and_eq_true_iff.mp passes
        have free : ¬execution.IsBarred node := fun bars => bars.elim (· unforced) something
        have verdict : execution.Verdict outcome node _ := .ready free ready
        rwa [ScheduledNode.resultOf, if_pos done] at verdict
      next => cases settled

theorem Determined.of_state_eq (determined : before.Determined outcomeOf)
    (wellFormed : before.schedule.WellFormed) (schedule : after.schedule = before.schedule)
    (policy : after.policy = before.policy) (unaborted : after.isAborted = before.isAborted)
    (same : ∀ item, after.state item = before.state item) : after.Determined outcomeOf := by
  refine ⟨policy ▸ determined.persists, unaborted.trans determined.unaborted, ?_⟩
  intro node member left
  rw [schedule] at member
  rw [same] at left ⊢
  refine (determined.decided node member left).of_moves (fun item => ?_)
    (wellFormed.targets node member)
  rw [same]
  exact .stays _

/-- One node moves on to what is decided about it. -/
theorem Determined.record (determined : execution.Determined outcomeOf)
    (wellFormed : execution.schedule.WellFormed) (member : node ∈ execution.schedule.nodes)
    (moves : NodeState.Moves (execution.state node.item) state)
    (verdict : execution.Verdict (outcomeOf node.item) node
      (state.endsAs (outcomeOf node.item))) :
    (execution.record node.item state).Determined outcomeOf := by
  have allMove : ∀ item,
      NodeState.Moves (execution.state item) ((execution.record node.item state).state item) := by
    intro item
    rw [state_record]
    split
    next same => exact same ▸ moves
    next => exact .stays _
  refine ⟨determined.persists, determined.unaborted, fun other present left => ?_⟩
  have targets := wellFormed.targets other present
  rw [state_record] at left ⊢
  split at left
  next same =>
    cases wellFormed.node_unique present member same
    rw [if_pos same]
    exact verdict.of_moves allMove targets
  next different =>
    rw [if_neg different]
    exact (determined.decided other present left).of_moves allMove targets

theorem Determined.examines {added : List ScheduledNode}
    (determined : execution.Determined outcomeOf) (wellFormed : execution.schedule.WellFormed)
    (member : node ∈ execution.schedule.nodes) (examines : execution.Examines node after added) :
    after.Determined outcomeOf := by
  cases examines with
  | passes => exact determined
  | settles waiting settled =>
      have terminal := isTerminal_of_settled? settled
      refine determined.record wellFormed member (waiting ▸ .settles terminal) ?_
      rw [NodeState.endsAs_of_isTerminal terminal]
      exact determined.verdict wellFormed member settled
  | offers =>
      have frame := settles_markReady execution node.item
      refine determined.of_state_eq wellFormed frame.schedule ?_ frame.isAborted
        (state_markReady execution node.item)
      unfold markReady
      split <;> rfl
  | waits => exact determined

theorem Determined.propagate {queue : List ScheduledNode}
    (determined : execution.Determined outcomeOf) (wellFormed : execution.schedule.WellFormed)
    (scheduled : queue ⊆ execution.schedule.nodes) (steps : Nat) :
    (propagate steps queue execution).Determined outcomeOf := by
  induction steps generalizing queue execution with
  | zero => exact determined
  | succ steps ih =>
      cases queue with
      | nil => exact determined
      | cons head rest =>
          obtain ⟨headScheduled, restScheduled⟩ := List.cons_subset.mp scheduled
          obtain ⟨next, added, examines, same⟩ := propagate_cons execution head steps rest
          have schedule := examines.frame.schedule
          rw [same]
          refine ih (determined.examines wellFormed headScheduled examines)
            (schedule ▸ wellFormed) ?_
          rw [schedule]
          exact List.append_subset.mpr ⟨restScheduled, examines.added_subset⟩

theorem determined_start {schedule : Schedule} (wellFormed : schedule.WellFormed) (name : String)
    {policy : FailurePolicy} (handlers : List String)
    (persists : policy = .proceed ∨ ∀ item, outcomeOf item = .success) :
    (start name schedule policy handlers).Determined outcomeOf := by
  let fresh : Execution := { name, schedule, policy, handlers, pending := schedule.nodes.length }
  have untouched : fresh.Determined outcomeOf := ⟨persists, rfl, fun _ _ left => absurd rfl left⟩
  exact untouched.propagate wellFormed (List.Subset.refl _) _

theorem Determined.select {locks table : LockTable} {selection : Selection}
    (determined : execution.Determined outcomeOf) (valid : execution.Valid)
    (selected : execution.select locks = (selection, after, table)) :
    after.Determined outcomeOf := by
  cases selects selected with
  | finished => exact determined
  | waiting => exact determined.of_state_eq valid.wellFormed rfl rfl rfl fun _ => rfl
  | @ready node preferred listed startable =>
      have offered : ({ execution with preferred } : Execution).Determined outcomeOf :=
        determined.of_state_eq valid.wellFormed rfl rfl rfl fun _ => rfl
      have member : node ∈ execution.schedule.nodes := listed.elim (valid.preferred ·) id
      obtain ⟨waiting, ready, _⟩ := canStart_iff.mp startable
      have unsettled := valid.examined.unsettled node member waiting List.not_mem_nil
      obtain ⟨_, unforced, something, work⟩ := settled?_eq_none_iff.mp unsettled
      obtain ⟨unmarked, unexecuted⟩ := work ready
      have free : ¬execution.IsBarred node := by
        rintro (forced | nothing)
        · exact forced unforced
        · rw [something] at nothing
          cases nothing
      have verdict : execution.Verdict (outcomeOf node.item) node _ := .ready free ready
      rw [ScheduledNode.resultOf, unmarked, unexecuted, if_neg (by decide)] at verdict
      have moves : NodeState.Moves (execution.state node.item) .running := by
        rw [waiting]
        exact .starts
      exact (determined.record valid.wellFormed member moves verdict).of_state_eq
        valid.wellFormed rfl rfl rfl fun _ => rfl

theorem settleAfter_eq_reexamine {item : WorkItem}
    (persists : execution.policy = .proceed ∨ outcome = .success) :
    execution.settleAfter item outcome = execution.reexamine (execution.dependents item) := by
  unfold settleAfter
  refine if_neg fun stops => ?_
  simp only [Bool.and_eq_true, Bool.not_eq_true', decide_eq_true_eq] at stops
  obtain ⟨⟨fails, stopping⟩, _⟩ := stops
  rcases persists with proceeds | rfl
  · rw [proceeds] at stopping
    cases stopping
  · cases fails

theorem Determined.settleAfter (determined : execution.Determined outcomeOf)
    (wellFormed : execution.schedule.WellFormed) (item : WorkItem) :
    (execution.settleAfter item (outcomeOf item)).Determined outcomeOf ∧
      (execution.settleAfter item (outcomeOf item)).schedule = execution.schedule := by
  rw [settleAfter_eq_reexamine (determined.persists.imp_right fun always => always item)]
  have scheduled : execution.dependents item ⊆ execution.schedule.nodes :=
    List.filter_sublist.subset
  exact ⟨determined.propagate wellFormed scheduled _, (settles_propagate _ _ _).schedule⟩

theorem Determined.finish? {locks table : LockTable} {item : WorkItem}
    {notifications : List Notification} (determined : execution.Determined outcomeOf)
    (wellFormed : execution.schedule.WellFormed)
    (finished : execution.finish? locks item (outcomeOf item) =
      some (after, table, notifications)) :
    after.Determined outcomeOf := by
  rcases finish?_cases finished with rfl | ⟨node, member, rfl, running, rfl⟩
  · exact determined
  · have moves : NodeState.Moves (execution.state node.item)
        (.ofOutcome (outcomeOf node.item)) := by
      rw [running]
      exact .ends _
    have verdict := determined.decided node member (by rw [running]; exact NodeState.noConfusion)
    rw [running] at verdict
    have recorded := determined.record wellFormed member moves (by
      rw [NodeState.endsAs_of_isTerminal (NodeState.isTerminal_ofOutcome _)]
      exact verdict)
    obtain ⟨settled, schedule⟩ := recorded.settleAfter wellFormed node.item
    exact settled.of_state_eq (schedule ▸ wellFormed) rfl rfl rfl fun _ => rfl

/-! ## Runs -/

/-- A run that is not closed, and in which the work of an item comes to the same outcome whenever it
is reported. Which node is asked for or reported when, and how many run at a time, is free. -/
inductive Plays (outcomeOf : WorkItem → TaskOutcome) (initial : Execution) : Execution → Prop where
  | start : Plays outcomeOf initial initial
  | select {before after : Execution} {locks table : LockTable} {selection : Selection} :
      Plays outcomeOf initial before → before.select locks = (selection, after, table) →
      Plays outcomeOf initial after
  | finish {before after : Execution} {locks table : LockTable} {item : WorkItem}
      {notifications : List Notification} : Plays outcomeOf initial before →
      before.finish? locks item (outcomeOf item) = some (after, table, notifications) →
      Plays outcomeOf initial after

theorem Plays.exists_runs (plays : Plays outcomeOf initial execution) :
    ∃ handed, Runs initial handed execution := by
  induction plays with
  | start => exact ⟨_, .start⟩
  | select _ selected ih =>
      obtain ⟨handed, runs⟩ := ih
      exact ⟨_, .call runs (.select selected)⟩
  | finish _ finished ih =>
      obtain ⟨handed, runs⟩ := ih
      exact ⟨_, .call runs (.finish finished)⟩

theorem Plays.sound (plays : Plays outcomeOf initial execution) (valid : initial.Valid) :
    execution.Valid ∧ execution.schedule = initial.schedule := by
  obtain ⟨_, runs⟩ := plays.exists_runs
  obtain ⟨valid, schedule, _⟩ := runs.sound valid
  exact ⟨valid, schedule⟩

theorem Plays.determined (plays : Plays outcomeOf initial execution) (valid : initial.Valid)
    (determined : initial.Determined outcomeOf) : execution.Determined outcomeOf := by
  induction plays with
  | start => exact determined
  | select earlier selected ih => exact ih.select (earlier.sound valid).1 selected
  | finish earlier finished ih => exact ih.finish? (earlier.sound valid).1.wellFormed finished

/-- Where all nodes are where the others put them, the first one in the order of the schedule that
two executions could disagree about does not exist. -/
theorem Determined.state_eq (here : first.Determined outcomeOf) (there : second.Determined outcomeOf)
    (wellFormed : first.schedule.WellFormed) (schedule : second.schedule = first.schedule)
    (ended : ∀ item ∈ first.schedule.items, (first.state item).isTerminal = true)
    (finished : ∀ item ∈ first.schedule.items, (second.state item).isTerminal = true) :
    ∀ item ∈ first.schedule.items, first.state item = second.state item := by
  have verdict : ∀ {execution : Execution}, execution.Determined outcomeOf →
      ∀ node ∈ execution.schedule.nodes, (execution.state node.item).isTerminal = true →
        execution.Verdict (outcomeOf node.item) node (execution.state node.item) := by
    intro execution determined node member terminal
    have decided := determined.decided node member (NodeState.ne_waiting_of_isTerminal terminal)
    rwa [NodeState.endsAs_of_isTerminal terminal] at decided
  refine wellFormed.induction fun node member same => ?_
  have scheduled := Schedule.mem_items member
  have barred : first.IsBarred node ↔ second.IsBarred node :=
    isBarred_congr same fun target finalized => by
      obtain ⟨kind, waits⟩ := wellFormed.targets node member target finalized
      exact same (target, kind) waits
  exact (verdict here node member (ended _ scheduled)).unique
    (verdict there node (schedule ▸ member) (finished _ scheduled)) barred

/-- Two complete runs of a plan that continues on failure come to the same final states, and to the
same summary. -/
theorem states_eq_of_plays {plan : Plan} (reachable : plan.Reachable) {schedule : Schedule}
    (finalized : plan.finalize.result = .ok schedule) (name : String) (handlers : List String)
    (outcomeOf : WorkItem → TaskOutcome)
    (one : Plays outcomeOf (start name schedule .proceed handlers) first)
    (other : Plays outcomeOf (start name schedule .proceed handlers) second)
    (completed : first.isFinished = true) (finished : second.isFinished = true) :
    (∀ item ∈ schedule.items, first.state item = second.state item ∧
      (first.state item).isTerminal = true) ∧
    first.states = second.states ∧ first.summary = second.summary := by
  have wellFormed := reachable.wellFormed_of_finalize finalized
  obtain ⟨startValid, startSchedule, _⟩ := valid_start wellFormed name .proceed handlers
  have determined : (start name schedule .proceed handlers).Determined outcomeOf :=
    determined_start wellFormed name handlers (.inl rfl)
  obtain ⟨firstValid, firstSchedule⟩ := one.sound startValid
  obtain ⟨secondValid, secondSchedule⟩ := other.sound startValid
  rw [startSchedule] at firstSchedule secondSchedule
  have ended : ∀ {execution : Execution}, execution.Valid → execution.schedule = schedule →
      execution.isFinished = true → ∀ item ∈ schedule.items,
        (execution.state item).isTerminal = true := by
    rintro execution valid rfl isFinished _ scheduled
    obtain ⟨node, member, rfl⟩ := List.mem_map.mp scheduled
    exact valid.isTerminal_of_pending (of_decide_eq_true isFinished) member
  have same : ∀ item ∈ schedule.items, first.state item = second.state item := by
    have agree := (one.determined startValid determined).state_eq
      (other.determined startValid determined) firstValid.wellFormed
      (secondSchedule.trans firstSchedule.symm)
    rw [firstSchedule] at agree
    exact agree (ended firstValid firstSchedule completed)
      (ended secondValid secondSchedule finished)
  refine ⟨fun item scheduled => ⟨same item scheduled,
    ended firstValid firstSchedule completed item scheduled⟩, ?_, ?_⟩
  · unfold states
    rw [firstSchedule, secondSchedule]
    exact List.map_congr_left same
  · unfold summary
    rw [firstSchedule, secondSchedule]
    congr 1
    refine List.map_congr_left fun item listed => ?_
    rw [same item (List.mem_filter.mp listed).1]

end Execution

/-! ## An example -/

/-- A plan of `lint`, and of `compile` and `test`, which depends on it. -/
def Plan.fork : Plan :=
  (Plan.seed { name := "build" }
    [{ item := .task "lint" }, { item := .task "compile" },
      { item := .task "test", dependencies := [1] }]).plan

theorem Plan.reachable_fork : Plan.fork.Reachable := .seed _ (.new "build")

def Schedule.fork : Schedule :=
  .ofNodes
    [{ item := .task "lint", isEntry := true }, { item := .task "compile", isEntry := true },
      { item := .task "test", predecessors := [(.task "compile", .dependency)], isEntry := true }]
    []

theorem Plan.finalize_fork : Plan.fork.finalize.result = .ok .fork := rfl

namespace Execution

/-- Nothing but compiling fails. -/
def forkOutcome (item : WorkItem) : TaskOutcome :=
  if item = .task "compile" then .failed 1 else .success

/-- The execution of the fork, after as many selections as given. -/
def forkStarted : Nat → Execution
  | 0 => start "build" .fork .proceed []
  | count + 1 => ((forkStarted count).select {}).2.1

/-- The fork, with both tasks started before one is finished. -/
def forkTogether : Execution :=
  (((forkStarted 2).finishNode {} Schedule.fork.nodes[1] (.failed 1)).1.finishNode {}
    Schedule.fork.nodes[0] .success).1

/-- The fork, with `lint` done before anything else starts. -/
def forkHalf : Execution := ((forkStarted 1).finishNode {} Schedule.fork.nodes[0] .success).1

/-- The fork, with one task after the other. -/
def forkInTurn : Execution :=
  ((forkHalf.select {}).2.1.finishNode {} Schedule.fork.nodes[1] (.failed 1)).1

theorem select_fork :
    (forkStarted 0).select {} = (.ready Schedule.fork.nodes[0], forkStarted 1, {}) := rfl

theorem plays_forkTogether : Plays forkOutcome (forkStarted 0) forkTogether := by
  have selects : (forkStarted 1).select {} =
      (.ready Schedule.fork.nodes[1], forkStarted 2, {}) := rfl
  have fails : (forkStarted 2).finish? {} (.task "compile") (forkOutcome (.task "compile")) =
      some (((forkStarted 2).finishNode {} Schedule.fork.nodes[1] (.failed 1)).1, {}, []) := rfl
  have succeeds : ((forkStarted 2).finishNode {} Schedule.fork.nodes[1] (.failed 1)).1.finish? {}
      (.task "lint") (forkOutcome (.task "lint")) = some (forkTogether, {}, []) := rfl
  exact .finish (.finish (.select (.select .start select_fork) selects) fails) succeeds

theorem plays_forkInTurn : Plays forkOutcome (forkStarted 0) forkInTurn := by
  have succeeds : (forkStarted 1).finish? {} (.task "lint") (forkOutcome (.task "lint")) =
      some (forkHalf, {}, []) := rfl
  have selects : forkHalf.select {} =
      (.ready Schedule.fork.nodes[1], (forkHalf.select {}).2.1, {}) := rfl
  have fails : (forkHalf.select {}).2.1.finish? {} (.task "compile")
      (forkOutcome (.task "compile")) = some (forkInTurn, {}, []) := rfl
  exact .finish (.select (.finish (.select .start select_fork) succeeds) selects) fails

/-- The runs settle the tasks in different orders, and all the same agree about them. -/
theorem states_eq_fork :
    Plan.fork.finalize.result = .ok .fork ∧ forkTogether.isFinished = true ∧
      forkInTurn.isFinished = true ∧ forkTogether.history ≠ forkInTurn.history ∧
      forkTogether.states = [.succeeded, .failed 1, .skipped] ∧
      forkTogether.states = forkInTurn.states ∧ forkTogether.summary = forkInTurn.summary := by
  have together : forkTogether.isFinished = true := rfl
  have inTurn : forkInTurn.isFinished = true := rfl
  have agree := states_eq_of_plays Plan.reachable_fork Plan.finalize_fork "build" [] forkOutcome
    plays_forkTogether plays_forkInTurn together inTurn
  exact ⟨Plan.finalize_fork, together, inTurn, by decide, rfl, agree.2⟩

end Execution

end TaskPlanner
