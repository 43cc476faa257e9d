import TaskPlanner.Proofs.Execution.Finalizers

/-! Executions that their plan has left behind. Once nothing waits in an execution, no call makes
anything wait or start, and all that it can still execute is what runs already. -/

set_option autoImplicit false

namespace TaskPlanner

namespace NodeState

variable {before after : NodeState}

theorem isTerminal_of_isExecuted {state : NodeState} (executed : state.isExecuted = true) :
    state.isTerminal = true := by
  cases state <;> first | rfl | cases executed

theorem Moves.eq_running (moves : before.Moves .running) (started : before ≠ .waiting) :
    before = .running := by
  generalize same : NodeState.running = after at moves
  cases moves with
  | stays => rfl
  | starts => exact absurd rfl started
  | ends outcome => cases outcome <;> cases same
  | settles => exact absurd rfl started

theorem Moves.executed_cases (moves : before.Moves after) (started : before ≠ .waiting)
    (executed : after.isExecuted = true) : before.isExecuted = true ∨ before = .running := by
  cases moves with
  | stays => exact .inl executed
  | starts => exact absurd rfl started
  | ends => exact .inr rfl
  | settles => exact absurd rfl started

end NodeState

namespace Execution

variable {execution after : Execution} {node? : Option ScheduledNode} {item : WorkItem}

/-- Nothing scheduled waits any more. -/
def IsRetired (execution : Execution) : Prop :=
  ∀ item ∈ execution.schedule.items, execution.state item ≠ .waiting

theorem mem_executedItems : item ∈ execution.executedItems ↔
    item ∈ execution.schedule.items ∧ (execution.state item).isExecuted = true ∧
      item.taskName?.isSome = true := by
  simp [executedItems]

theorem isMarker_of_mem_executedItems (executed : item ∈ execution.executedItems) :
    item.isMarker = false := by
  obtain ⟨_, _, isTask⟩ := mem_executedItems.mp executed
  cases item with
  | task => rfl
  | delegated => rfl
  | marker => cases isTask

/-! ## Closing -/

theorem isClosed_start (name : String) (schedule : Schedule) (policy : FailurePolicy)
    (handlers : List String) : (start name schedule policy handlers).isClosed = false :=
  (reexamine_keeps _ _).1

theorem Step.isClosed (step : execution.Step node? after) (closed : after.isClosed = true) :
    execution.isClosed = true ∨ after = execution.close := by
  cases step with
  | close => exact .inr rfl
  | select selected => cases selects selected <;> exact .inl closed
  | finish finished =>
      rcases finish?_cases finished with rfl | ⟨ended, _, _, _, rfl⟩
      · exact .inl closed
      · left
        dsimp only at closed
        unfold settleAfter at closed
        split at closed
        · rwa [(reexamine_keeps _ _).1] at closed
        · rwa [(reexamine_keeps _ _).1] at closed

/-- A closed execution is retired, and stays so. -/
theorem Valid.isRetired_close (valid : execution.Valid)
    (retired : execution.isClosed = true → execution.IsRetired) : execution.close.IsRetired := by
  cases closed : execution.isClosed with
  | true =>
      rw [close_of_isClosed closed]
      exact retired closed
  | false =>
      obtain ⟨settles, _, ended⟩ := valid.leaves_out closed
      intro item scheduled
      rw [settles.schedule] at scheduled
      exact ended item scheduled

theorem Valid.isRetired_step (valid : execution.Valid) (step : execution.Step node? after)
    (retired : execution.IsRetired) : after.IsRetired := by
  obtain ⟨_, schedule, moves⟩ := valid.step step
  intro item scheduled
  rw [schedule] at scheduled
  exact (moves item).ne_waiting (retired item scheduled)

theorem Valid.isRetired_of_isClosed (valid : execution.Valid) (step : execution.Step node? after)
    (retired : execution.isClosed = true → execution.IsRetired) (closed : after.isClosed = true) :
    after.IsRetired := by
  rcases step.isClosed closed with before | rfl
  · exact valid.isRetired_step step (retired before)
  · exact valid.isRetired_close retired

/-! ## What is executed -/

theorem Valid.running_close_subset (valid : execution.Valid) :
    execution.close.itemsIn .running ⊆ execution.itemsIn .running := by
  intro item running
  obtain ⟨scheduled, runs⟩ := mem_itemsIn.mp running
  rw [valid.close.2.1] at scheduled
  exact mem_itemsIn.mpr ⟨scheduled, (running_close execution item).mp runs⟩

theorem Valid.executedItems_close_subset (valid : execution.Valid) :
    execution.close.executedItems ⊆ execution.executedItems := by
  intro item executed
  obtain ⟨scheduled, performed, isTask⟩ := mem_executedItems.mp executed
  rw [valid.close.2.1] at scheduled
  rcases execution.state_close item with same | ⟨_, leftOut⟩
  · exact mem_executedItems.mpr ⟨scheduled, same ▸ performed, isTask⟩
  · rw [leftOut] at performed
    cases performed

theorem Valid.executedItems_subset (valid : execution.Valid) (step : execution.Step node? after) :
    execution.executedItems ⊆ after.executedItems := by
  obtain ⟨_, schedule, moves⟩ := valid.step step
  intro item executed
  obtain ⟨scheduled, performed, isTask⟩ := mem_executedItems.mp executed
  refine mem_executedItems.mpr ⟨schedule ▸ scheduled, ?_, isTask⟩
  rw [(moves item).eq_of_isTerminal (NodeState.isTerminal_of_isExecuted performed)]
  exact performed

/-- Nothing starts in a retired execution. -/
theorem Valid.running_subset (valid : execution.Valid) (step : execution.Step node? after)
    (retired : execution.IsRetired) : after.itemsIn .running ⊆ execution.itemsIn .running := by
  obtain ⟨_, schedule, moves⟩ := valid.step step
  intro item running
  obtain ⟨scheduled, runs⟩ := mem_itemsIn.mp running
  rw [schedule] at scheduled
  have moves := moves item
  rw [runs] at moves
  exact mem_itemsIn.mpr ⟨scheduled, moves.eq_running (retired item scheduled)⟩

/-- What a retired execution executes was running before. -/
theorem Valid.executedItems_cases (valid : execution.Valid) (step : execution.Step node? after)
    (retired : execution.IsRetired) (executed : item ∈ after.executedItems) :
    item ∈ execution.executedItems ∨ item ∈ execution.itemsIn .running := by
  obtain ⟨_, schedule, moves⟩ := valid.step step
  obtain ⟨scheduled, performed, isTask⟩ := mem_executedItems.mp executed
  rw [schedule] at scheduled
  rcases (moves item).executed_cases (retired item scheduled) performed with earlier | running
  · exact .inl (mem_executedItems.mpr ⟨scheduled, earlier, isTask⟩)
  · exact .inr (mem_itemsIn.mpr ⟨scheduled, running⟩)

end Execution

end TaskPlanner
