import TaskPlanner.Proofs.Execution.Determinism
import TaskPlanner.Proofs.Plan.Gathering

/-! Executions in which all work succeeds. Nothing is left out then, so everything that a node waits
for, directly or not, has ended when the node is handed out: the markers keep all their promises. -/

set_option autoImplicit false

namespace TaskPlanner.Execution

variable {execution : Execution} {node : ScheduledNode}

/-- What is barred waits for something that did not succeed. -/
theorem IsBarred.exists_unsuccessful (barred : execution.IsBarred node)
    (targets : ∀ target ∈ node.finalizes, ∃ kind, (target, kind) ∈ node.predecessors) :
    ∃ waited ∈ node.predecessors, (execution.state waited.1).isTerminal = true ∧
      execution.state waited.1 ≠ .succeeded := by
  rcases barred with forced | nothing
  · obtain ⟨waited, waits, _, ended⟩ := forced?_ne_none_iff.mp forced
    exact ⟨waited, waits, ended⟩
  · simp only [hasNothingToFinalize, Bool.and_eq_true, Bool.not_eq_true', List.all_eq_true]
      at nothing
    obtain ⟨⟨_, some⟩, unexecuted⟩ := nothing
    obtain ⟨target, rest, split⟩ := List.exists_cons_of_ne_nil (List.isEmpty_eq_false_iff.mp some)
    have finalized : target ∈ node.finalizes := split ▸ List.mem_cons_self
    obtain ⟨ended, left⟩ := unexecuted target finalized
    obtain ⟨kind, waits⟩ := targets target finalized
    refine ⟨(target, kind), waits, ended, fun succeeded => ?_⟩
    rw [show execution.state target = .succeeded from succeeded] at left
    cases left

theorem Determined.state_eq_succeeded (determined : execution.Determined fun _ => .success)
    (wellFormed : execution.schedule.WellFormed) : ∀ item ∈ execution.schedule.items,
      (execution.state item).isTerminal = true → execution.state item = .succeeded := by
  refine wellFormed.induction fun node member succeeded terminal => ?_
  have verdict := determined.decided node member (NodeState.ne_waiting_of_isTerminal terminal)
  rw [NodeState.endsAs_of_isTerminal terminal] at verdict
  generalize execution.state node.item = state at verdict
  cases verdict with
  | barred bars =>
      obtain ⟨waited, waits, ended, unsuccessful⟩ :=
        bars.exists_unsuccessful (wellFormed.targets node member)
      exact absurd (succeeded waited waits ended) unsuccessful
  | ready =>
      unfold ScheduledNode.resultOf
      split <;> rfl

/-- Everything that a node waits for has ended once the node has started. -/
theorem Determined.isTerminal_of_predecessor (determined : execution.Determined fun _ => .success)
    (wellFormed : execution.schedule.WellFormed) (member : node ∈ execution.schedule.nodes)
    (left : execution.state node.item ≠ .waiting) {waited : WorkItem × EdgeKind}
    (waits : waited ∈ node.predecessors) : (execution.state waited.1).isTerminal = true := by
  have verdict := determined.decided node member left
  generalize (execution.state node.item).endsAs .success = state at verdict
  cases verdict with
  | barred bars =>
      obtain ⟨other, waits, ended, unsuccessful⟩ :=
        bars.exists_unsuccessful (wellFormed.targets node member)
      have scheduled := wellFormed.mem_items_of_predecessor member waits
      exact absurd (determined.state_eq_succeeded wellFormed _ scheduled ended) unsuccessful
  | ready _ ready => exact isTerminal_of_isSatisfied (isReady_iff.mp ready waited waits)

/-- If a node may start, everything that the constraints put in front of it has ended, however many
other items are in between. -/
theorem Determined.isTerminal_of_reaches {inventory : Inventory} {source target : WorkItem}
    (determined : execution.Determined fun _ => .success)
    (scheduled : inventory.schedule = .ok execution.schedule)
    (reaches : inventory.constraintGraph.Reaches source target)
    (member : node ∈ execution.schedule.nodes) (same : node.item = target)
    (ended : ∀ waited ∈ node.predecessors, (execution.state waited.1).isTerminal = true) :
    (execution.state source).isTerminal = true := by
  have wellFormed := Inventory.wellFormed_schedule scheduled
  induction reaches generalizing node with
  | edge adjacent =>
      obtain ⟨kind, waits⟩ := Inventory.exists_mem_predecessors scheduled member (same ▸ adjacent)
      exact ended _ waits
  | @trans middle _ _ adjacent ih =>
      obtain ⟨kind, waits⟩ := Inventory.exists_mem_predecessors scheduled member (same ▸ adjacent)
      obtain ⟨between, listed, named⟩ :=
        List.mem_map.mp (wellFormed.mem_items_of_predecessor member waits)
      have terminal : (execution.state between.item).isTerminal = true := by
        rw [named]
        exact ended _ waits
      exact ih listed named fun waited => determined.isTerminal_of_predecessor wellFormed listed
        (NodeState.ne_waiting_of_isTerminal terminal)

/-- While all work succeeds, whatever waits for an item that no earlier batch needs is handed out
after all that earlier batches request. -/
theorem isTerminal_of_waits {plan : Plan} (gathered : plan.Gathered) {schedule : Schedule}
    (finalized : plan.finalize.result = .ok schedule) {name : String} {policy : FailurePolicy}
    {handlers : List String} {after : Execution}
    (plays : Plays (fun _ => .success) (start name schedule policy handlers) execution)
    {locks table : LockTable} (selected : execution.select locks = (.ready node, after, table))
    {ordinal : Ordinal} {held : WorkItem} (due : plan.finalize.plan.IsDue ordinal held)
    (waits : held = node.item ∨ plan.finalize.plan.relationGraph.Reaches held node.item)
    {batch : Batch} (listed : batch ∈ plan.finalize.plan.batches.batches)
    (order : batch.ordinal < ordinal) {entry : WorkItem} (requested : entry ∈ batch.entries)
    (scheduled : entry ∈ schedule.items) : (execution.state entry).isTerminal = true := by
  obtain ⟨orderly, ordered⟩ := gathered.isOrderly_of_mem_items finalized scheduled
  have wellFormed := Inventory.wellFormed_schedule ordered
  obtain ⟨startValid, startSchedule, _⟩ := valid_start wellFormed name policy handlers
  obtain ⟨valid, sameSchedule⟩ := plays.sound startValid
  rw [startSchedule] at sameSchedule
  obtain ⟨member, _, _, ready, unmarked, _⟩ := valid.ready selected
  have reaches : plan.finalize.plan.constraintGraph.Reaches entry node.item :=
    orderly.reaches due waits (Inventory.node_of_schedule ordered (sameSchedule ▸ member)).1
      unmarked listed order requested ((Inventory.extends_schedule ordered).exact entry |>.mp
        scheduled)
  have determined := plays.determined startValid
    (determined_start wellFormed name handlers (.inr fun _ => rfl))
  exact determined.isTerminal_of_reaches (sameSchedule ▸ ordered) reaches member rfl
    fun waited waits => isTerminal_of_isSatisfied (isReady_iff.mp ready waited waits)

end TaskPlanner.Execution
