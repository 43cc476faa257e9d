import TaskPlanner.Proofs.Execution.Finalizers
import TaskPlanner.Proofs.Plan.Gathering

/-! Batches while they run. The markers keep an item of a later batch back until everything that
earlier batches request has ended, as long as they end by themselves. A failure that stops the
execution ends them early: a finalizer of a later batch that is kept then may run next to items of
an earlier batch. -/

set_option autoImplicit false

namespace TaskPlanner

namespace Inventory

variable {inventory : Inventory} {schedule : Schedule}

/-- A marker waits for its batch and for nothing else, and finalizes nothing. -/
theorem IsOrderly.marker_waits (orderly : inventory.IsOrderly)
    (scheduled : inventory.schedule = .ok schedule) {node : ScheduledNode}
    (member : node ∈ schedule.nodes) (marker : node.isMarker = true) :
    (∀ waited ∈ node.predecessors, waited.2 = .ordinal) ∧ node.finalizes = [] := by
  obtain ⟨indexed, same⟩ := node_of_schedule scheduled member
  constructor
  · rintro ⟨source, kind⟩ waits
    rw [same] at waits
    exact orderly.apart.kind_eq_ordinal waits (.inr marker)
  · refine List.eq_nil_iff_forall_not_mem.mpr fun target finalized => ?_
    rw [same] at finalized
    obtain ⟨listed, related⟩ := mem_finalizedBy.mp finalized
    have adjacent : inventory.relationGraph.Adjacent target node.item :=
      adjacent_relationGraph.mpr ⟨listed, indexed, .inr related⟩
    have unmarked := (orderly.apart.relations target node.item adjacent).2
    rw [show node.item.isMarker = true from marker] at unmarked
    cases unmarked

end Inventory

namespace Execution

variable {initial execution stopped after : Execution} {node : ScheduledNode}
  {handed : List ScheduledNode} {locks table : LockTable} {item : WorkItem} {ordinal : Ordinal}

/-- Only a stop ends a node before its time that depends on nothing and finalizes nothing. -/
theorem not_isBarred (independent : ∀ waited ∈ node.predecessors, waited.2 = .ordinal)
    (plain : node.finalizes = []) : ¬execution.IsBarred node := by
  rintro (forced | nothing)
  · obtain ⟨waited, waits, dependency, _⟩ := forced?_ne_none_iff.mp forced
    rw [independent waited waits] at dependency
    cases dependency
  · simp [hasNothingToFinalize, plain] at nothing

/-- What a marker waits for has ended before the marker, unless a stop came first. -/
theorem Accounted.isTerminal_of_awaitsBatch (accounted : Accounted initial execution)
    (markers : ∀ node ∈ execution.schedule.nodes, node.isMarker = true →
      (∀ waited ∈ node.predecessors, waited.2 = .ordinal) ∧ node.finalizes = [])
    (awaits : execution.schedule.AwaitsBatch item (.marker ordinal))
    (terminal : (execution.state (.marker ordinal)).isTerminal = true) :
    (execution.state item).isTerminal = true ∨ ∃ stopped, Halts initial stopped execution := by
  obtain ⟨marker, member, named, waits⟩ := awaits
  rw [← named] at terminal
  rcases NodeState.isExecuted_or_isLeftOut terminal with executed | leftOut
  · have ready := accounted.performed marker member (NodeState.ne_waiting_of_isTerminal terminal)
      (NodeState.isLeftOut_of_isExecuted executed)
    exact .inl (isTerminal_of_isSatisfied (isReady_iff.mp ready _ waits))
  · have isMarker : marker.isMarker = true := by
      unfold ScheduledNode.isMarker
      rw [named]
      rfl
    obtain ⟨independent, plain⟩ := markers marker member isMarker
    rcases accounted.leftOut marker member leftOut with barred | ⟨stopped, halts, _⟩
    · exact absurd barred (not_isBarred independent plain)
    · exact .inr ⟨stopped, halts⟩

/-- A marker ends after all that leads to it, unless a stop found the latter unfinished. -/
theorem Accounted.isTerminal_of_markerChain (accounted : Accounted initial execution)
    (valid : initial.Valid)
    (markers : ∀ node ∈ execution.schedule.nodes, node.isMarker = true →
      (∀ waited ∈ node.predecessors, waited.2 = .ordinal) ∧ node.finalizes = [])
    (chain : MarkerChain execution.schedule.AwaitsBatch item ordinal)
    (terminal : (execution.state (.marker ordinal)).isTerminal = true) :
    (execution.state item).isTerminal = true ∨
      ∃ stopped, Halts initial stopped execution ∧ (stopped.state item).isTerminal = false := by
  have judged : (∃ stopped, Halts initial stopped execution) →
      (execution.state item).isTerminal = true ∨
        ∃ stopped, Halts initial stopped execution ∧ (stopped.state item).isTerminal = false := by
    rintro ⟨stopped, halts⟩
    obtain ⟨stoppedValid, _, _, _, _, rest⟩ := halts.sound valid
    cases found : (stopped.state item).isTerminal with
    | false => exact .inr ⟨stopped, halts, found⟩
    | true =>
        left
        rw [rest.state_of_isTerminal stoppedValid found]
        exact found
  induction chain with
  | entry awaits =>
      exact (accounted.isTerminal_of_awaitsBatch markers awaits terminal).elim .inl judged
  | marker _ awaits ih =>
      exact (accounted.isTerminal_of_awaitsBatch markers awaits terminal).elim ih judged

/-- What still waits once the execution was stopped finalizes something that had started by then. -/
theorem Halts.finalizesExecuted_of_waiting (halts : Halts initial stopped execution)
    (valid : initial.Valid) (member : node ∈ initial.schedule.nodes)
    (waiting : execution.state node.item = .waiting) : stopped.finalizesExecuted node = true := by
  obtain ⟨stoppedValid, schedule, aborted, _, handed, rest⟩ := halts.sound valid
  refine stoppedValid.keepsFinalizers node (schedule ▸ member) ?_ aborted
  by_contra started
  exact rest.ne_waiting stoppedValid started waiting

/-- Batches run in order, unless a failure stops the execution. An item that no earlier batch needs
is handed out when everything that earlier batches request has ended, or else it finalizes
something that had started when a failure stopped the execution before that. -/
theorem batches_in_order {plan : Plan} (gathered : plan.Gathered) {schedule : Schedule}
    (finalized : plan.finalize.result = .ok schedule) (name : String) (policy : FailurePolicy)
    (handlers : List String) (runs : Runs (start name schedule policy handlers) handed execution)
    (unclosed : execution.isClosed = false)
    (selected : execution.select locks = (.ready node, after, table))
    (due : plan.finalize.plan.toInventory.IsDue ordinal node.item) {batch : Batch}
    (listed : batch ∈ plan.finalize.plan.batches.batches) (order : batch.ordinal < ordinal)
    {entry : WorkItem} (requested : entry ∈ batch.entries) (scheduled : entry ∈ schedule.items) :
    (execution.state entry).isTerminal = true ∨
      policy = .stop ∧ ∃ stopped, Halts (start name schedule policy handlers) stopped execution ∧
        (stopped.state entry).isTerminal = false ∧ stopped.finalizesExecuted node = true := by
  obtain ⟨orderly, ordered⟩ := gathered.isOrderly_of_mem_items finalized scheduled
  have wellFormed := Inventory.wellFormed_schedule ordered
  obtain ⟨startValid, startSchedule, _⟩ := valid_start wellFormed name policy handlers
  have started := accounted_start wellFormed name policy handlers
  obtain ⟨valid, sameSchedule, _⟩ := runs.sound startValid
  have accounted := runs.accounted startValid started unclosed
  obtain ⟨member, waiting, _, ready, unmarked, _⟩ := valid.ready selected
  rw [startSchedule] at sameSchedule
  obtain ⟨chain, waits⟩ := orderly.markerChain_schedule ordered (sameSchedule ▸ member) unmarked
    due listed order requested ((Inventory.extends_schedule ordered).exact entry |>.mp scheduled)
  have terminal := isTerminal_of_isSatisfied (isReady_iff.mp ready _ waits)
  rw [← sameSchedule] at chain
  have markers : ∀ node ∈ execution.schedule.nodes, node.isMarker = true →
      (∀ waited ∈ node.predecessors, waited.2 = .ordinal) ∧ node.finalizes = [] := by
    rw [sameSchedule]
    exact fun node => orderly.marker_waits ordered
  rcases accounted.isTerminal_of_markerChain startValid markers chain terminal with
    ended | ⟨stopped, halts, open'⟩
  · exact .inl ended
  · have stops : policy = .stop :=
      (reexamine_keeps _ _).2.symm.trans (halts.policy_eq unclosed)
    have listed : node ∈ (start name schedule policy handlers).schedule.nodes := by
      rw [startSchedule, ← sameSchedule]
      exact member
    exact .inr ⟨stops, stopped, halts, open',
      halts.finalizesExecuted_of_waiting startValid listed waiting⟩

end Execution

/-! ## Examples -/

namespace Plan

/-- A first batch of `compile` and `lint`, and a second one of `cleanup`, which finalizes
`compile`. -/
def stages : Plan :=
  ((examplePlan.take exampleResolver (.tasks ["compile", "lint"] none)).plan.take exampleResolver
    (.tasks ["cleanup"] none)).plan

theorem gathered_stages : stages.Gathered := by
  have fresh : examplePlan.Gathered := .fresh (isFresh_new _ _) rfl
  have first := fresh.take avoidsMarkers_exampleResolver
    (Submission.tasks_unmarked ["compile", "lint"] none) rfl
  exact first.take avoidsMarkers_exampleResolver (Submission.tasks_unmarked ["cleanup"] none) rfl

def stagesSchedule : Schedule :=
  .ofNodes
    [{ item := .task "compile", group := some (.ofPosition 0), isEntry := true },
      { item := .task "lint", group := some (.ofPosition 0), isEntry := true },
      { item := .marker (.ofPosition 1), group := some (.ofPosition 1),
        predecessors := [(.task "compile", .ordinal), (.task "lint", .ordinal)] },
      { item := .task "cleanup", group := some (.ofPosition 1),
        predecessors := [(.task "compile", .finalizes), (.marker (.ofPosition 1), .ordinal)],
        finalizes := [.task "compile"], isEntry := true }]
    []

theorem finalize_stages : stages.finalize.result = .ok stagesSchedule := rfl

theorem isDue_stages : stages.finalize.plan.toInventory.IsDue (.ofPosition 1) (.task "cleanup") :=
  .of_edges rfl (by decide)

end Plan

namespace Execution

open Plan (stagesSchedule)

/-- The execution of the stages, with both tasks of the first batch running. -/
def stagesRunning (policy : FailurePolicy) : Execution :=
  (((start "build" stagesSchedule policy []).select {}).2.1.select {}).2.1

/-- The execution of the stages, once `compile` has failed. -/
def stagesFailed (policy : FailurePolicy) : Execution :=
  ((stagesRunning policy).finishNode {} stagesSchedule.nodes[0] (.failed 1)).1

/-- The execution of the stages, once the first batch has ended. -/
def stagesEnded (policy : FailurePolicy) : Execution :=
  ((stagesFailed policy).finishNode {} stagesSchedule.nodes[1] .success).1

theorem runs_stagesFailed (policy : FailurePolicy) :
    Runs (start "build" stagesSchedule policy []) (stagesSchedule.nodes.take 2)
      (stagesFailed policy) := by
  have first : (start "build" stagesSchedule policy []).select {} =
      (.ready stagesSchedule.nodes[0],
        ((start "build" stagesSchedule policy []).select {}).2.1, {}) := by
    cases policy <;> rfl
  have second : ((start "build" stagesSchedule policy []).select {}).2.1.select {} =
      (.ready stagesSchedule.nodes[1], stagesRunning policy, {}) := by
    cases policy <;> rfl
  have fails : (stagesRunning policy).finish? {} (.task "compile") (.failed 1) =
      some (stagesFailed policy, {}, []) := by
    cases policy <;> rfl
  exact .call (.call (.call .start (.select first)) (.select second)) (.finish fails)

/-- If the execution goes on after failures, the second batch waits for all of the first one. -/
theorem batches_in_order_stages :
    Plan.stages.finalize.result = .ok stagesSchedule ∧
      (stagesEnded .proceed).select {} =
        (.ready stagesSchedule.nodes[3], ((stagesEnded .proceed).select {}).2.1, {}) ∧
      ((stagesEnded .proceed).state (.task "lint")).isTerminal = true := by
  have succeeds : (stagesFailed .proceed).finish? {} (.task "lint") .success =
      some (stagesEnded .proceed, {}, []) := rfl
  have runs := (runs_stagesFailed .proceed).call (.finish succeeds)
  have selected : (stagesEnded .proceed).select {} =
      (.ready stagesSchedule.nodes[3], ((stagesEnded .proceed).select {}).2.1, {}) := rfl
  have listed : ⟨.ofPosition 0, { items := [.task "compile", .task "lint"] }⟩ ∈
      Plan.stages.finalize.plan.batches.batches := List.mem_cons_self
  have requested : .task "lint" ∈ ({ items := [.task "compile", .task "lint"] } : ItemSet) :=
    List.mem_cons_of_mem _ List.mem_cons_self
  have ordered := batches_in_order Plan.gathered_stages Plan.finalize_stages "build" .proceed []
    runs rfl selected Plan.isDue_stages listed (by decide) requested (by decide)
  refine ⟨Plan.finalize_stages, selected, ordered.resolve_right ?_⟩
  rintro ⟨impossible, _⟩
  cases impossible

/-- If it stops, the marker is given up while `lint` still runs, and what finalizes the failed task
no longer waits for its batch. -/
theorem not_in_order_stages :
    Plan.stages.Gathered ∧ Plan.stages.finalize.result = .ok stagesSchedule ∧
    (∃ handed, Runs (start "build" stagesSchedule .stop []) handed (stagesFailed .stop)) ∧
    (stagesFailed .stop).isClosed = false ∧
    Plan.stages.finalize.plan.toInventory.IsDue (.ofPosition 1) (.task "cleanup") ∧
    (∃ batch ∈ Plan.stages.finalize.plan.batches.batches, batch.ordinal < .ofPosition 1 ∧
      .task "lint" ∈ batch.entries ∧ .task "lint" ∈ stagesSchedule.items) ∧
    ∃ node after, (stagesFailed .stop).select {} = (.ready node, after, {}) ∧
      node.item = .task "cleanup" ∧ after.state (.task "lint") = .running :=
  ⟨Plan.gathered_stages, Plan.finalize_stages, ⟨_, runs_stagesFailed .stop⟩, rfl,
    Plan.isDue_stages, ⟨⟨.ofPosition 0, { items := [.task "compile", .task "lint"] }⟩, List.mem_cons_self,
      by decide, List.mem_cons_of_mem _ List.mem_cons_self, by decide⟩,
    stagesSchedule.nodes[3], _, rfl, rfl, rfl⟩

end Execution

end TaskPlanner
