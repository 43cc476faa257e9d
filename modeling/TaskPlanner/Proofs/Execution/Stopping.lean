import TaskPlanner.Proofs.Execution.Finalizers

/-! What still starts after a failure under the policy that stops. The execution stays aborted in
every later call, and between two calls an aborted execution waits only for finalizers of which a
target runs or was executed. When such a finalizer starts, its targets have ended. -/

set_option autoImplicit false

namespace TaskPlanner

namespace Execution

variable {initial execution before after failed : Execution} {node : ScheduledNode}
  {node? : Option ScheduledNode} {handed : List ScheduledNode} {locks table : LockTable}

theorem isAborted_reexamine (execution : Execution) (nodes : List ScheduledNode) :
    (execution.reexamine nodes).isAborted = execution.isAborted :=
  (settles_propagate _ nodes execution).isAborted

theorem settleAfter_keeps (execution : Execution) (item : WorkItem) (outcome : TaskOutcome) :
    (execution.settleAfter item outcome).policy = execution.policy ∧
      (execution.settleAfter item outcome).isAborted =
        (execution.isAborted || !outcome.isSuccess && decide (execution.policy = .stop)) := by
  unfold settleAfter
  split
  next stops =>
    simp only [Bool.and_eq_true] at stops
    refine ⟨(reexamine_keeps _ _).2, (isAborted_reexamine _ _).trans ?_⟩
    rw [stops.1.1, stops.1.2, Bool.and_self, Bool.or_true]
  next continues =>
    refine ⟨(reexamine_keeps _ _).2, (isAborted_reexamine _ _).trans ?_⟩
    cases aborted : execution.isAborted
    · rw [aborted, Bool.not_false, Bool.and_true, Bool.not_eq_true] at continues
      rw [continues, Bool.or_false]
    · rw [Bool.true_or]

theorem Step.policy_eq (step : execution.Step node? after) : after.policy = execution.policy := by
  cases step with
  | close =>
      exact close_induction (·.policy = execution.policy) (fun _ => rfl) rfl fun _ _ _ => id
  | select selected => cases selects selected <;> rfl
  | finish finished =>
      rcases finish?_cases finished with rfl | ⟨ended, _, _, _, rfl⟩
      · rfl
      · exact (settleAfter_keeps _ _ _).1

/-- No call makes an aborted execution start new work again. -/
theorem Step.isAborted (step : execution.Step node? after) (aborted : execution.isAborted = true) :
    after.isAborted = true := by
  cases step with
  | close => exact close_induction (·.isAborted = true) (fun _ => aborted) rfl fun _ _ _ => id
  | select selected => cases selects selected <;> exact aborted
  | finish finished =>
      rcases finish?_cases finished with rfl | ⟨ended, _, _, _, rfl⟩
      · exact aborted
      · refine (settleAfter_keeps _ _ _).2.trans ?_
        rw [show (execution.record ended.item _).isAborted = true from aborted, Bool.true_or]

theorem Runs.policy_eq (runs : Runs initial handed execution) :
    execution.policy = initial.policy := by
  induction runs with
  | start => rfl
  | call _ step ih => exact step.policy_eq.trans ih

theorem Runs.isAborted (runs : Runs initial handed execution) (aborted : initial.isAborted = true) :
    execution.isAborted = true := by
  induction runs with
  | start => exact aborted
  | call _ step ih => exact step.isAborted ih

/-- The failure of a running item aborts an execution that stops on failure. -/
theorem isAborted_of_failure {item : WorkItem} {code : Int} {notifications : List Notification}
    (stops : before.policy = .stop) (running : before.state item = .running)
    (reported : before.finish? locks item (.failed code) = some (failed, table, notifications)) :
    failed.isAborted = true := by
  obtain ⟨node, _, rfl, finishes⟩ := finishNode_of_finish? reported
  rw [finishNode_of_running running] at finishes
  cases finishes
  refine (settleAfter_keeps _ _ _).2.trans ?_
  rw [show (before.record node.item (.ofOutcome (.failed code))).policy = .stop from stops]
  simp [TaskOutcome.isSuccess]

/-- What an aborted execution still waits for finalizes something that runs or was executed. -/
theorem Valid.exists_target (valid : execution.Valid) (aborted : execution.isAborted = true)
    (member : node ∈ execution.schedule.nodes) (waiting : execution.state node.item = .waiting) :
    ∃ target ∈ node.finalizes, execution.state target = .running ∨
      (execution.state target).isExecuted = true := by
  have kept := valid.keepsFinalizers node member waiting aborted
  obtain ⟨target, finalizes, started⟩ := List.any_eq_true.mp kept
  rw [Bool.or_eq_true, decide_eq_true_eq] at started
  exact ⟨target, finalizes, started.symm⟩

/-- What an aborted execution hands out finalizes something that was executed. -/
theorem Valid.exists_executed (valid : execution.Valid) (aborted : execution.isAborted = true)
    (selected : execution.select locks = (.ready node, after, table)) :
    ∃ target ∈ node.finalizes, (execution.state target).isExecuted = true := by
  obtain ⟨member, waiting, _, ready, _⟩ := valid.ready selected
  obtain ⟨target, finalizes, running | executed⟩ := valid.exists_target aborted member waiting
  · have terminal := valid.isTerminal_of_finalizes member ready finalizes
    rw [running] at terminal
    cases terminal
  · exact ⟨target, finalizes, executed⟩

/-- Once an execution that stops on failure has taken the failure of a running item, whatever calls
follow, it hands out only finalizers of executed items, and every node that it still waits for
finalizes something that runs or was executed. -/
theorem finalizes_after_failure {plan : Plan} (reachable : plan.Reachable) {schedule : Schedule}
    (finalized : plan.finalize.result = .ok schedule) (name : String) (handlers : List String)
    (earlier : Runs (start name schedule .stop handlers) handed before) {item : WorkItem}
    (running : before.state item = .running) {code : Int} {notifications : List Notification}
    (reported : before.finish? locks item (.failed code) = some (failed, table, notifications))
    {handedLater : List ScheduledNode} (later : Runs failed handedLater execution) :
    (∀ (current : LockTable) (node : ScheduledNode) (next : Execution) (acquired : LockTable),
      execution.select current = (.ready node, next, acquired) →
      ∃ target ∈ node.finalizes, (execution.state target).isExecuted = true) ∧
    ∀ node ∈ schedule.nodes, execution.state node.item = .waiting →
      ∃ target ∈ node.finalizes, execution.state target = .running ∨
        (execution.state target).isExecuted = true := by
  obtain ⟨startValid, startSchedule, _⟩ :=
    valid_start (reachable.wellFormed_of_finalize finalized) name .stop handlers
  have policy : before.policy = .stop := earlier.policy_eq.trans (reexamine_keeps _ _).2
  have reports := Runs.call earlier (.finish reported)
  obtain ⟨failedValid, failedSchedule, _⟩ := reports.sound startValid
  obtain ⟨valid, sameSchedule, _⟩ := later.sound failedValid
  have aborted := later.isAborted (isAborted_of_failure policy running reported)
  constructor
  · intro current node next acquired selected
    exact valid.exists_executed aborted selected
  · intro node member waiting
    have scheduled : node ∈ execution.schedule.nodes := by
      rw [sameSchedule, failedSchedule, startSchedule]
      exact member
    exact valid.exists_target aborted scheduled waiting

/-- After the failure of `compile`, its finalizer `report` is handed out, and nothing else waits. -/
theorem finalizes_after_failure_chain :
    (chainStopped.select {}).1 = .ready Schedule.chain.nodes[1] ∧
      ∃ target ∈ Schedule.chain.nodes[1].finalizes,
        (chainStopped.state target).isExecuted = true := by
  have first : (start "build" .chain .stop []).select {} =
      (.ready Schedule.chain.nodes[0], ((start "build" .chain .stop []).select {}).2.1, {}) := rfl
  have fails : ((start "build" .chain .stop []).select {}).2.1.finish? {} (.task "compile")
      (.failed 1) = some (chainStopped, {}, []) := rfl
  have next : chainStopped.select {} =
      (.ready Schedule.chain.nodes[1], (chainStopped.select {}).2.1, {}) := rfl
  have safe := (finalizes_after_failure Plan.reachable_chain Plan.finalize_chain "build" []
    (.call .start (.select first)) rfl fails .start).1
  exact ⟨rfl, safe {} _ _ _ next⟩

end Execution

end TaskPlanner
