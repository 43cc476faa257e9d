import TaskPlanner.Proofs.Execution.Locking
import TaskPlanner.Proofs.Execution.Retirement
import TaskPlanner.Proofs.Execution.Sequence

/-! Which completions the handlers are told of. In a run of calls, reports that are repeated or come
from nowhere included, every task that ends with an outcome is told of once, with that outcome, and
nothing else is. -/

set_option autoImplicit false

namespace TaskPlanner

/-- A task of the build at hand ended with an outcome. -/
structure Completion where
  item : WorkItem
  task : String
  outcome : TaskOutcome
deriving DecidableEq, Repr

/-- The handlers are told of a completion in the order of their registration. -/
def Completion.calls (completion : Completion) (handlers : List String) : List Notification :=
  handlers.map fun handler =>
    { handler, item := completion.item, task := completion.task, outcome := completion.outcome }

namespace Execution

variable {initial execution before after : Execution} {locks : LockTable} {node : ScheduledNode}
  {node? : Option ScheduledNode} {item : WorkItem} {outcome : TaskOutcome} {done : List Completion}
  {sent : List Notification}

/-- Report the outcome of an item, which may be unknown. -/
def report (execution : Execution) (locks : LockTable) (item : WorkItem) (outcome : TaskOutcome) :
    Execution × LockTable × List Notification :=
  (execution.finish? locks item outcome).getD (execution, locks, [])

/-- What the report of an outcome completes: a running task of the build at hand. -/
def completions (execution : Execution) (item : WorkItem) (outcome : TaskOutcome) :
    List Completion :=
  match item.taskName? with
  | some task => if item ∈ execution.itemsIn .running then [{ item, task, outcome }] else []
  | none => []

/-- A sequence of calls, each with some table of locks, with the completions that were reported and
the calls of handlers that were made, in order. -/
inductive Reports (initial : Execution) : List Completion → List Notification → Execution → Prop where
  | start : Reports initial [] [] initial
  | select {done : List Completion} {sent : List Notification} {before : Execution}
      (locks : LockTable) : Reports initial done sent before →
      Reports initial done sent (before.select locks).2.1
  | finish {done : List Completion} {sent : List Notification} {before : Execution}
      (locks : LockTable) (item : WorkItem) (outcome : TaskOutcome) :
      Reports initial done sent before →
      Reports initial (done ++ before.completions item outcome)
        (sent ++ (before.report locks item outcome).2.2) (before.report locks item outcome).1
  | close {done : List Completion} {sent : List Notification} {before : Execution} :
      Reports initial done sent before → Reports initial done sent before.close

/-! ## One report -/

theorem Valid.report_of_mem (valid : execution.Valid) (member : node ∈ execution.schedule.nodes)
    (locks : LockTable) (outcome : TaskOutcome) :
    execution.report locks node.item outcome = execution.finishNode locks node outcome := by
  rw [report, finish?_eq_some valid.wellFormed member]
  rfl

/-- A report about anything that is not running is ignored. -/
theorem report_of_not_mem_running (idle : item ∉ execution.itemsIn .running) (locks : LockTable)
    (outcome : TaskOutcome) : execution.report locks item outcome = (execution, locks, []) := by
  cases found : execution.schedule.node? item with
  | none =>
      rw [report, finish?, found]
      rfl
  | some node =>
      obtain ⟨member, rfl⟩ := Schedule.mem_of_node? found
      have stopped : execution.state node.item ≠ .running :=
        fun running => idle (mem_itemsIn.mpr ⟨Schedule.mem_items member, running⟩)
      rw [report, finish?, found, Option.map_some, finishNode, if_pos stopped]
      rfl

theorem Valid.state_report (valid : execution.Valid) (member : node ∈ execution.schedule.nodes)
    (running : execution.state node.item = .running) (other : WorkItem) :
    (execution.report locks node.item outcome).1.state other =
      ((execution.record node.item (.ofOutcome outcome)).settleAfter node.item outcome).state
        other := by
  rw [valid.report_of_mem member, finishNode_of_running running]
  rfl

/-- The report about a running node records its outcome, releases its locks, and tells the handlers
of a task of the build at hand. -/
theorem Valid.report_of_running (valid : execution.Valid) (member : node ∈ execution.schedule.nodes)
    (running : execution.state node.item = .running) (locks : LockTable) (outcome : TaskOutcome) :
    (execution.report locks node.item outcome).1.state node.item = .ofOutcome outcome ∧
      (execution.report locks node.item outcome).2.1 = locks.release node.item node.locks ∧
      (execution.report locks node.item outcome).2.2 =
        execution.notifications node.item outcome := by
  refine ⟨?_, ?_⟩
  · have recorded : (execution.record node.item (.ofOutcome outcome)).state node.item =
        .ofOutcome outcome := by
      rw [state_record, if_pos rfl]
    rw [valid.state_report member running]
    rcases (execution.record node.item (.ofOutcome outcome)).state_settleAfter node.item outcome
      node.item with same | waiting
    · exact same.trans recorded
    · rw [recorded] at waiting
      cases outcome <;> cases waiting
  · rw [valid.report_of_mem member, finishNode_of_running running]
    exact ⟨rfl, rfl⟩

theorem step_report (execution : Execution) (locks : LockTable) (item : WorkItem)
    (outcome : TaskOutcome) : (execution.report locks item outcome).1 = execution ∨
      execution.Step none (execution.report locks item outcome).1 := by
  unfold report
  cases finished : execution.finish? locks item outcome with
  | none => exact .inl rfl
  | some result => exact .inr (.finish finished)

theorem Valid.report (valid : execution.Valid) (locks : LockTable) (item : WorkItem)
    (outcome : TaskOutcome) :
    (execution.report locks item outcome).1.Valid ∧
      (execution.report locks item outcome).1.schedule = execution.schedule ∧
      ∀ other, NodeState.Moves (execution.state other)
        ((execution.report locks item outcome).1.state other) := by
  rcases execution.step_report locks item outcome with same | step
  · rw [same]
    exact ⟨valid, rfl, fun _ => .stays _⟩
  · exact valid.step step

/-! ## Handlers -/

theorem handlers_reexamine (execution : Execution) (nodes : List ScheduledNode) :
    (execution.reexamine nodes).handlers = execution.handlers := by
  refine propagate_keeps (·.handlers = execution.handlers) (fun _ _ _ => id)
    (fun other item same => ?_) rfl _ _
  unfold markReady
  split <;> exact same

theorem Step.handlers_eq (step : execution.Step node? after) :
    after.handlers = execution.handlers := by
  cases step with
  | close =>
      exact close_induction (·.handlers = execution.handlers) (fun _ => rfl) rfl fun _ _ _ => id
  | select selected => cases selects selected <;> rfl
  | finish finished =>
      rcases finish?_cases finished with rfl | ⟨ended, _, _, _, rfl⟩
      · rfl
      · show ((execution.record ended.item _).settleAfter ended.item _).handlers = _
        unfold settleAfter
        split
        · exact handlers_reexamine _ _
        · exact handlers_reexamine _ _

/-- The handlers are called for what a report completes, and for nothing else. -/
theorem Valid.calls_report (valid : execution.Valid) (locks : LockTable) (item : WorkItem)
    (outcome : TaskOutcome) :
    (execution.report locks item outcome).2.2 =
      (execution.completions item outcome).flatMap (·.calls execution.handlers) := by
  by_cases running : item ∈ execution.itemsIn .running
  · obtain ⟨scheduled, runs⟩ := mem_itemsIn.mp running
    obtain ⟨node, member, rfl⟩ := List.mem_map.mp scheduled
    rw [(valid.report_of_running member runs locks outcome).2.2, notifications, completions]
    cases node.item.taskName? with
    | none => rfl
    | some task => simp [running, Completion.calls]
  · rw [report_of_not_mem_running running, completions]
    cases item.taskName? with
    | none => rfl
    | some task => simp [running]

/-! ## Performed work -/

/-- A report makes no other work performed than that of its item. -/
theorem Valid.performed_report (valid : execution.Valid) (member : node ∈ execution.schedule.nodes)
    (work : node.isWork = true)
    (performed : ((execution.report locks item outcome).1.state node.item).isExecuted = true) :
    (execution.state node.item).isExecuted = true ∨
      node.item = item ∧ item ∈ execution.itemsIn .running := by
  by_cases running : item ∈ execution.itemsIn .running
  · obtain ⟨scheduled, runs⟩ := mem_itemsIn.mp running
    obtain ⟨ended, endedMember, rfl⟩ := List.mem_map.mp scheduled
    by_cases same : node.item = ended.item
    · exact .inr ⟨same, running⟩
    · rw [valid.state_report endedMember runs] at performed
      have wellFormed : (execution.record ended.item (.ofOutcome outcome)).schedule.WellFormed :=
        valid.wellFormed
      rcases state_settleAfter_of_isWork wellFormed member work ended.item outcome with
        kept | leftOut
      · rw [kept, state_record, if_neg same] at performed
        exact .inl performed
      · rw [NodeState.isLeftOut_of_isExecuted performed] at leftOut
        cases leftOut
  · rw [report_of_not_mem_running running] at performed
    exact .inl performed

theorem performed_select (performed : ((execution.select locks).2.1.state item).isExecuted = true) :
    (execution.state item).isExecuted = true := by
  generalize selected : execution.select locks = result at performed
  obtain ⟨selection, after, table⟩ := result
  cases selects selected with
  | finished => exact performed
  | waiting => exact performed
  | @ready node =>
      rw [state_record] at performed
      split at performed
      · cases performed
      · exact performed

theorem performed_close (performed : (execution.close.state item).isExecuted = true) :
    (execution.state item).isExecuted = true := by
  rcases execution.state_close item with same | ⟨_, leftOut⟩
  · rwa [same] at performed
  · rw [leftOut] at performed
    cases performed

/-! ## Runs -/

theorem mem_completions {completion : Completion} :
    completion ∈ execution.completions item outcome ↔
      item ∈ execution.itemsIn .running ∧ completion.item = item ∧
        item.taskName? = some completion.task ∧ completion.outcome = outcome := by
  obtain ⟨named, title, result⟩ := completion
  unfold completions
  cases item.taskName? with
  | none => simp
  | some task =>
      dsimp only
      split
      next running => simp [running, eq_comm]
      next idle => simp [idle]

/-- The tasks in `done` are different ones, each has its outcome recorded, and no other work of the
build at hand was performed. -/
structure Confirms (done : List Completion) (execution : Execution) : Prop where
  distinct : (done.map (·.item)).Nodup
  recorded : ∀ completion ∈ done, completion.item ∈ execution.schedule.items ∧
    completion.item.taskName? = some completion.task ∧
      execution.state completion.item = .ofOutcome completion.outcome
  complete : ∀ node ∈ execution.schedule.nodes, node.isWork = true →
    node.item.taskName?.isSome = true → (execution.state node.item).isExecuted = true →
      node.item ∈ done.map (·.item)

theorem confirms_start {schedule : Schedule} (wellFormed : schedule.WellFormed) (name : String)
    (policy : FailurePolicy) (handlers : List String) :
    Confirms [] (start name schedule policy handlers) := by
  refine ⟨List.nodup_nil, nofun, fun node member work _ performed => ?_⟩
  rw [(valid_start wellFormed name policy handlers).2.1] at member
  rcases state_start_of_isWork wellFormed name policy handlers member work with waiting | leftOut
  · rw [waiting] at performed
    cases performed
  · rw [NodeState.isLeftOut_of_isExecuted performed] at leftOut
    cases leftOut

/-- What was recorded stays. -/
theorem Confirms.recorded_of_moves (confirms : Confirms done before)
    (schedule : after.schedule = before.schedule)
    (moves : ∀ item, NodeState.Moves (before.state item) (after.state item)) :
    ∀ completion ∈ done, completion.item ∈ after.schedule.items ∧
      completion.item.taskName? = some completion.task ∧
        after.state completion.item = .ofOutcome completion.outcome := by
  intro completion member
  obtain ⟨scheduled, task, recorded⟩ := confirms.recorded completion member
  have terminal : (before.state completion.item).isTerminal = true := by
    rw [recorded]
    exact NodeState.isTerminal_ofOutcome _
  exact ⟨schedule ▸ scheduled, task,
    ((moves completion.item).eq_of_isTerminal terminal).trans recorded⟩

/-- A call that performs nothing needs no completion. -/
theorem Confirms.of_moves (confirms : Confirms done before)
    (schedule : after.schedule = before.schedule)
    (moves : ∀ item, NodeState.Moves (before.state item) (after.state item))
    (performed : ∀ item, (after.state item).isExecuted = true →
      (before.state item).isExecuted = true) : Confirms done after := by
  refine ⟨confirms.distinct, confirms.recorded_of_moves schedule moves,
    fun node member work isTask executed => ?_⟩
  rw [schedule] at member
  exact confirms.complete node member work isTask (performed _ executed)

theorem Confirms.report (confirms : Confirms done execution) (valid : execution.Valid)
    (locks : LockTable) (item : WorkItem) (outcome : TaskOutcome) :
    Confirms (done ++ execution.completions item outcome)
      (execution.report locks item outcome).1 := by
  obtain ⟨_, schedule, moves⟩ := valid.report locks item outcome
  refine ⟨?_, fun completion member => ?_, fun node member work isTask performed => ?_⟩
  · -- What is told of now is running, and so it has not been told of before.
    rw [List.map_append, List.nodup_append]
    refine ⟨confirms.distinct, ?_, ?_⟩
    · unfold completions
      cases item.taskName? with
      | none => exact List.nodup_nil
      | some task =>
          dsimp only
          split
          · exact List.nodup_singleton _
          · exact List.nodup_nil
    · intro one earlier other now same
      obtain ⟨told, listed, rfl⟩ := List.mem_map.mp earlier
      obtain ⟨completion, member, rfl⟩ := List.mem_map.mp now
      obtain ⟨running, named, _⟩ := mem_completions.mp member
      have recorded := (confirms.recorded told listed).2.2
      rw [same, named, (mem_itemsIn.mp running).2] at recorded
      have terminal := NodeState.isTerminal_ofOutcome told.outcome
      rw [← recorded] at terminal
      cases terminal
  · rcases List.mem_append.mp member with earlier | now
    · exact confirms.recorded_of_moves schedule moves completion earlier
    · obtain ⟨running, rfl, task, rfl⟩ := mem_completions.mp now
      obtain ⟨scheduled, runs⟩ := mem_itemsIn.mp running
      obtain ⟨node, member, named⟩ := List.mem_map.mp scheduled
      rw [← named] at runs ⊢
      refine ⟨?_, named ▸ task, (valid.report_of_running member runs locks _).1⟩
      rw [named, schedule]
      exact scheduled
  · rw [schedule] at member
    rw [List.map_append, List.mem_append]
    rcases valid.performed_report member work performed with before | ⟨rfl, running⟩
    · exact .inl (confirms.complete node member work isTask before)
    · obtain ⟨task, named⟩ := Option.isSome_iff_exists.mp isTask
      exact .inr (List.mem_map.mpr ⟨⟨node.item, task, outcome⟩,
        mem_completions.mpr ⟨running, rfl, named, rfl⟩, rfl⟩)

/-- What holds in a run of calls. -/
theorem Reports.sound (reports : Reports initial done sent execution) (valid : initial.Valid)
    (confirms : Confirms [] initial) :
    execution.Valid ∧ execution.schedule = initial.schedule ∧
      execution.handlers = initial.handlers ∧
      sent = done.flatMap (·.calls initial.handlers) ∧ Confirms done execution := by
  induction reports with
  | start => exact ⟨valid, rfl, rfl, rfl, confirms⟩
  | @select done sent before locks _ ih =>
      obtain ⟨beforeValid, schedule, handlers, calls, told⟩ := ih
      have selected : before.select locks = ((before.select locks).1, (before.select locks).2.1,
          (before.select locks).2.2) := rfl
      have step := Step.select selected
      obtain ⟨afterValid, same, moves⟩ := beforeValid.step step
      exact ⟨afterValid, same.trans schedule, step.handlers_eq.trans handlers, calls,
        told.of_moves same moves fun _ => performed_select⟩
  | @finish done sent before locks item outcome _ ih =>
      obtain ⟨beforeValid, schedule, handlers, calls, told⟩ := ih
      obtain ⟨afterValid, same, _⟩ := beforeValid.report locks item outcome
      refine ⟨afterValid, same.trans schedule, ?_, ?_, told.report beforeValid locks item outcome⟩
      · rcases before.step_report locks item outcome with kept | step
        · rw [kept, handlers]
        · exact step.handlers_eq.trans handlers
      · rw [List.flatMap_append, ← calls, beforeValid.calls_report, handlers]
  | @close done sent before _ ih =>
      obtain ⟨beforeValid, schedule, handlers, calls, told⟩ := ih
      obtain ⟨afterValid, same, moves⟩ := beforeValid.close
      exact ⟨afterValid, same.trans schedule, Step.close.handlers_eq.trans handlers, calls,
        told.of_moves same moves fun _ => performed_close⟩

/-- In every run of calls the handlers are told exactly once of each task of the build at hand that
was reported while it was running, in the order of these reports and of their registration. The
report about a running node of another build is recorded and releases locks, but calls nobody, and
every other report is ignored. If no task had been executed before, the executed ones are those of
which the handlers were told. -/
theorem told_once {plan : Plan} (reachable : plan.Reachable) {schedule : Schedule}
    (finalized : plan.finalize.result = .ok schedule) (name : String) (policy : FailurePolicy)
    (handlers : List String)
    (reports : Reports (start name schedule policy handlers) done sent execution) :
    sent = done.flatMap (·.calls handlers) ∧ (done.map (·.item)).Nodup ∧
      (∀ completion ∈ done, completion.item.taskName? = some completion.task ∧
        execution.state completion.item = .ofOutcome completion.outcome) ∧
      (∀ locks item outcome, item ∉ schedule.items ∨ execution.state item ≠ .running →
        execution.report locks item outcome = (execution, locks, [])) ∧
      (∀ node ∈ schedule.nodes, execution.state node.item = .running → ∀ locks outcome,
        (execution.report locks node.item outcome).1.state node.item = .ofOutcome outcome ∧
          (execution.report locks node.item outcome).2.1 = locks.release node.item node.locks ∧
          (node.item.taskName? = none → (execution.report locks node.item outcome).2.2 = [])) ∧
      ((∀ node ∈ schedule.nodes, node.item.taskName?.isSome = true → node.isExecuted = false) →
        ∀ item, item ∈ execution.executedItems ↔ item ∈ done.map (·.item)) := by
  have wellFormed := reachable.wellFormed_of_finalize finalized
  obtain ⟨startValid, startSchedule, _⟩ := valid_start wellFormed name policy handlers
  have startHandlers : (start name schedule policy handlers).handlers = handlers :=
    handlers_reexamine _ _
  obtain ⟨valid, same, _, calls, confirms⟩ :=
    reports.sound startValid (confirms_start wellFormed name policy handlers)
  rw [startHandlers] at calls
  rw [startSchedule] at same
  refine ⟨calls, confirms.distinct, fun completion told => (confirms.recorded completion told).2,
    fun locks item outcome ignored => ?_, fun node member running locks outcome => ?_,
    fun idle item => ⟨fun executed => ?_, fun told => ?_⟩⟩
  · refine report_of_not_mem_running (fun running => ?_) locks outcome
    obtain ⟨scheduled, runs⟩ := mem_itemsIn.mp running
    exact ignored.elim (absurd (same ▸ scheduled)) (absurd runs)
  · obtain ⟨recorded, released, notified⟩ :=
      valid.report_of_running (same ▸ member) running locks outcome
    refine ⟨recorded, released, fun foreign => ?_⟩
    rw [notified, notifications, foreign]
  · obtain ⟨scheduled, performed, isTask⟩ := mem_executedItems.mp executed
    obtain ⟨node, member, rfl⟩ := List.mem_map.mp scheduled
    have unmarked : node.isMarker = false := isMarker_of_mem_executedItems executed
    have work : node.isWork = true := by
      simp [ScheduledNode.isWork, unmarked, idle node (same ▸ member) isTask]
    exact confirms.complete node member work isTask performed
  · obtain ⟨completion, listed, rfl⟩ := List.mem_map.mp told
    obtain ⟨scheduled, task, recorded⟩ := confirms.recorded completion listed
    refine mem_executedItems.mpr ⟨scheduled, ?_, by rw [task]; rfl⟩
    rw [recorded]
    cases completion.outcome <;> rfl

/-- The success of `compile` is reported twice, and then an outcome of what nobody knows. -/
def reportedTwice : Execution :=
  let running := ((start "build" .delivery .stop ["log"]).select {}).2.1
  let compiled := (running.report {} (.task "compile") .success).1
  let again := (compiled.report {} (.task "compile") .success).1
  (again.report {} (.task "deploy") (.failed 1)).1

/-- The handler is told of it once. -/
theorem told_once_delivery :
    Plan.delivery.Reachable ∧ Plan.delivery.finalize.result = .ok .delivery ∧
      Reports (start "build" .delivery .stop ["log"]) [⟨.task "compile", "compile", .success⟩]
        [⟨"log", .task "compile", "compile", .success⟩] reportedTwice ∧
      ∀ item, item ∈ reportedTwice.executedItems ↔ item = .task "compile" := by
  have reports : Reports (start "build" .delivery .stop ["log"])
      [⟨.task "compile", "compile", .success⟩]
      [⟨"log", .task "compile", "compile", .success⟩] reportedTwice :=
    .finish {} (.task "deploy") (.failed 1) (.finish {} (.task "compile") .success
      (.finish {} (.task "compile") .success (.select {} .start)))
  obtain ⟨_, _, _, _, _, executed⟩ :=
    told_once Plan.reachable_delivery Plan.finalize_delivery "build" .stop ["log"] reports
  refine ⟨Plan.reachable_delivery, Plan.finalize_delivery, reports, fun item => ?_⟩
  rw [executed (by decide)]
  exact List.mem_singleton

/-- A plan of a task of another build, which needs the directory of the libraries. -/
def packaging : Plan :=
  (Plan.seed { name := "build" } [{ item := .delegated "lib" "jar", locks := ["libs"] }]).plan

def packagingSchedule : Schedule :=
  .ofNodes [{ item := .delegated "lib" "jar", locks := ["libs"], isEntry := true }] []

/-- It is running, and its report calls no handler, but it is not ignored. -/
theorem not_ignored_packaging :
    packaging.Reachable ∧ packaging.finalize.result = .ok packagingSchedule ∧
      ∃ running locks node,
        (start "build" packagingSchedule .stop ["log"]).select {} = (.ready node, running, locks) ∧
        Reports (start "build" packagingSchedule .stop ["log"]) [] [] running ∧
        node.item.taskName? = none ∧ running.state node.item = .running ∧
        (running.report locks node.item .success).2.2 = [] ∧
        (running.report locks node.item .success).1.state node.item = .succeeded ∧
        locks.held = [("libs", node.item)] ∧
        (running.report locks node.item .success).2.1.held = [] :=
  ⟨.seed _ (.new "build"), rfl, _, _, _, rfl, .select {} .start, rfl, rfl, rfl, rfl, rfl, rfl⟩

end Execution

end TaskPlanner
