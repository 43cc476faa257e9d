import TaskPlanner.Proofs.Execution.Calls
import TaskPlanner.Proofs.Plan.Operations

/-! Whatever calls an execution takes, and in whatever order, it hands out an item only when
everything the item waits for has ended as it should, and no item twice. -/

set_option autoImplicit false

namespace TaskPlanner

/-- The node that a selection hands out. -/
def Selection.node? : Selection → Option ScheduledNode
  | ready node => some node
  | waiting => none
  | finished => none

namespace Execution

variable {initial execution before after : Execution} {locks table : LockTable}
  {node : ScheduledNode} {node? : Option ScheduledNode}

/-- One call of an execution, with the node that it hands out. What is locked when a call is
made is up to the other executions. -/
inductive Step (execution : Execution) : Option ScheduledNode → Execution → Prop where
  | select {locks table : LockTable} {selection : Selection} {after : Execution} :
      execution.select locks = (selection, after, table) →
      Step execution selection.node? after
  | finish {locks table : LockTable} {item : WorkItem} {outcome : TaskOutcome}
      {after : Execution} {notifications : List Notification} :
      execution.finish? locks item outcome = some (after, table, notifications) →
      Step execution none after
  | close : Step execution none execution.close

/-- A sequence of calls, with the nodes that they hand out, in order. -/
inductive Runs (initial : Execution) : List ScheduledNode → Execution → Prop where
  | start : Runs initial [] initial
  | call {handed : List ScheduledNode} {before after : Execution} {node? : Option ScheduledNode} :
      Runs initial handed before → before.Step node? after →
      Runs initial (handed ++ node?.toList) after

theorem finishNode_of_finish? {item : WorkItem} {outcome : TaskOutcome}
    {notifications : List Notification}
    (finished : execution.finish? locks item outcome = some (after, table, notifications)) :
    ∃ node ∈ execution.schedule.nodes, node.item = item ∧
      execution.finishNode locks node outcome = (after, table, notifications) := by
  obtain ⟨node, found, finishes⟩ := Option.map_eq_some_iff.mp finished
  obtain ⟨member, same⟩ := Schedule.mem_of_node? found
  exact ⟨node, member, same, finishes⟩

theorem Valid.step (valid : execution.Valid) (step : execution.Step node? after) :
    after.Valid ∧ after.schedule = execution.schedule ∧
      ∀ item, NodeState.Moves (execution.state item) (after.state item) := by
  cases step with
  | select selected => exact valid.select selected
  | finish finished =>
      obtain ⟨node, member, _, finishes⟩ := finishNode_of_finish? finished
      exact valid.finishNode member finishes
  | close => exact valid.close

/-- What is handed out waited for nothing any more, and is running now. -/
theorem Valid.ready (valid : execution.Valid)
    (selected : execution.select locks = (.ready node, after, table)) :
    node ∈ execution.schedule.nodes ∧ execution.state node.item = .waiting ∧
      after.state node.item = .running ∧ execution.isReady node = true ∧
      node.isMarker = false ∧ node.isExecuted = false := by
  cases selects selected with
  | ready listed startable subset =>
      have member : node ∈ execution.schedule.nodes := listed.elim (valid.preferred ·) id
      obtain ⟨waiting, ready, _⟩ := canStart_iff.mp startable
      have unsettled := valid.examined.unsettled node member waiting List.not_mem_nil
      refine ⟨member, waiting, ?_, ready, (settled?_eq_none_iff.mp unsettled).2.2.2 ready⟩
      rw [state_record, if_pos rfl]

theorem Step.running (valid : execution.Valid) (step : execution.Step (some node) after) :
    after.state node.item = .running := by
  generalize given : some node = node? at step
  cases step with
  | @select _ _ selection _ selected =>
      cases selection with
      | ready other =>
          cases given
          exact (valid.ready selected).2.2.1
      | waiting => cases given
      | finished => cases given
  | finish => cases given
  | close => cases given

/-- No sequence of calls makes an item wait again that was handed out. -/
theorem Runs.sound {handed : List ScheduledNode} (valid : initial.Valid)
    (runs : Runs initial handed execution) :
    execution.Valid ∧ execution.schedule = initial.schedule ∧
      ∀ node ∈ handed, execution.state node.item ≠ .waiting := by
  induction runs with
  | start => exact ⟨valid, rfl, by simp⟩
  | @call handed before after node? _ step ih =>
      obtain ⟨beforeValid, same, started⟩ := ih
      obtain ⟨afterValid, kept, moves⟩ := beforeValid.step step
      refine ⟨afterValid, kept.trans same, fun node member => ?_⟩
      rcases List.mem_append.mp member with earlier | now
      · exact (moves node.item).ne_waiting (started node earlier)
      · cases Option.mem_toList.mp now
        rw [step.running beforeValid]
        exact NodeState.noConfusion

/-- Hand-out safety. An item is handed out once at most, when its dependencies have succeeded
and all else it waits for has ended, and only if there is work to do. States move forward
only, and final states do not change. -/
theorem select_safe {plan : Plan} (reachable : plan.Reachable) {schedule : Schedule}
    (finalized : plan.finalize.result = .ok schedule) (name : String) (policy : FailurePolicy)
    (handlers : List String) {handed : List ScheduledNode}
    (runs : Runs (start name schedule policy handlers) handed execution) :
    (∀ locks node after table, execution.select locks = (.ready node, after, table) →
      node ∈ schedule.nodes ∧
      (∀ waited ∈ node.predecessors, waited.1 ∈ schedule.items ∧
        (waited.2 = .dependency → after.state waited.1 = .succeeded) ∧
        (after.state waited.1).isTerminal = true) ∧
      node.isMarker = false ∧ node.isExecuted = false ∧ node.item ∉ handed.map (·.item)) ∧
    (∀ item, (start name schedule policy handlers).state item = .waiting ∨
      ((start name schedule policy handlers).state item).isTerminal = true) ∧
    (∀ node? after, execution.Step node? after → ∀ item,
      NodeState.Moves (execution.state item) (after.state item) ∧
        ((execution.state item).isTerminal = true → after.state item = execution.state item)) := by
  obtain ⟨startValid, startSchedule, fresh⟩ :=
    valid_start (reachable.wellFormed_of_finalize finalized) name policy handlers
  obtain ⟨valid, sameSchedule, started⟩ := runs.sound startValid
  rw [startSchedule] at sameSchedule
  refine ⟨fun locks node after table selected => ?_, fresh, fun node? after step item => ?_⟩
  · obtain ⟨member, waiting, _, ready, unmarked, unexecuted⟩ := valid.ready selected
    refine ⟨sameSchedule ▸ member, fun waited waits => ?_, unmarked, unexecuted, fun again => ?_⟩
    · have satisfied := isReady_iff.mp ready waited waits
      have terminal := isTerminal_of_isSatisfied satisfied
      have same := ((valid.select selected).2.2 waited.1).eq_of_isTerminal terminal
      rw [same]
      refine ⟨sameSchedule ▸ valid.wellFormed.mem_items_of_predecessor member waits, ?_, terminal⟩
      intro dependency
      rw [dependency] at satisfied
      exact of_decide_eq_true satisfied
    · obtain ⟨earlier, listed, same⟩ := List.mem_map.mp again
      exact started earlier listed (same ▸ waiting)
  · have moves := (valid.step step).2.2 item
    exact ⟨moves, moves.eq_of_isTerminal⟩

/-! ## An example -/

end Execution

/-- A plan of two tasks, the second of which depends on the first. -/
def Plan.pair : Plan :=
  (Plan.seed { name := "build" }
    [{ item := .task "compile" }, { item := .task "test", dependencies := [0] }]).plan

theorem Plan.reachable_pair : Plan.pair.Reachable := .seed _ (.new "build")

/-- The order of the two tasks. -/
def Schedule.pair : Schedule :=
  .ofNodes
    [{ item := .task "compile", isEntry := true },
      { item := .task "test", predecessors := [(.task "compile", .dependency)], isEntry := true }]
    []

theorem Plan.finalize_pair : Plan.pair.finalize.result = .ok .pair := rfl

namespace Execution

/-- The execution of the two tasks, while the first of them runs. -/
def pairRunning : Execution := ((start "build" .pair .stop []).select {}).2.1

/-- The execution of the two tasks, once the first of them has succeeded. -/
def pairHalf : Execution :=
  (pairRunning.finishNode {} { item := .task "compile" } .success).1

theorem runs_pairHalf :
    Runs (start "build" .pair .stop []) [{ item := .task "compile", isEntry := true }]
      pairHalf := by
  have selected : (start "build" .pair .stop []).select {} =
      (.ready { item := .task "compile", isEntry := true }, pairRunning, {}) := rfl
  have finished : pairRunning.finish? {} (.task "compile") .success = some (pairHalf, {}, []) := rfl
  exact .call (.call .start (.select selected)) (.finish finished)

theorem select_safe_pair :
    Plan.pair.finalize.result = .ok .pair ∧
      pairHalf.select {} = (.ready (Schedule.pair.nodes[1]), (pairHalf.select {}).2.1, {}) ∧
      (pairHalf.select {}).2.1.state (.task "compile") = .succeeded := by
  have selected : pairHalf.select {} =
      (.ready Schedule.pair.nodes[1], (pairHalf.select {}).2.1, {}) := rfl
  have safe := (select_safe Plan.reachable_pair Plan.finalize_pair "build" .stop []
    runs_pairHalf).1 {} Schedule.pair.nodes[1] _ _ selected
  exact ⟨Plan.finalize_pair, selected,
    (safe.2.1 (.task "compile", .dependency) List.mem_cons_self).2.1 rfl⟩

end Execution

end TaskPlanner
