import TaskPlanner.Execution.Drain
import TaskPlanner.Proofs.Execution.HandOut

/-! An execution in which nothing runs does not wait, unless others hold what its items need.
The first waiting node in the order of the schedule can always start. -/

set_option autoImplicit false

namespace TaskPlanner

/-! ## Locks -/

namespace LockTable

variable {locks : LockTable} {owner : WorkItem} {names : List String} {entry : String × WorkItem}

theorem mem_held_acquire (member : entry ∈ (locks.acquire owner names).held) :
    entry ∈ locks.held ∨ entry.1 ∈ names ∧ entry.2 = owner := by
  induction names generalizing locks with
  | nil => exact .inl member
  | cons name rest ih =>
      rcases @ih (locks.enter owner name) member with entered | ⟨listed, same⟩
      · unfold enter at entered
        split at entered
        · exact .inl entered
        · rcases List.mem_cons.mp entered with rfl | held
          · exact .inr ⟨List.mem_cons_self, rfl⟩
          · exact .inl held
      · exact .inr ⟨List.mem_cons_of_mem _ listed, same⟩

theorem mem_held_release :
    entry ∈ (locks.release owner names).held ↔
      entry ∈ locks.held ∧ ¬ (entry.1 ∈ names ∧ entry.2 = owner) := by
  simp only [release, List.mem_filter, Bool.not_eq_true', ← Bool.not_eq_true, Bool.and_eq_true,
    decide_eq_true_eq]

/-- An item gives up all that it took from a table in which nothing was held. -/
theorem release_acquire (unlocked : locks.held = []) :
    ((locks.acquire owner names).release owner names).held = [] := by
  refine List.eq_nil_iff_forall_not_mem.mpr fun entry member => ?_
  obtain ⟨held, kept⟩ := mem_held_release.mp member
  rcases mem_held_acquire held with before | taken
  · rw [unlocked] at before
    cases before
  · exact kept taken

theorem areFreeFor_of_held_eq_nil (unlocked : locks.held = []) :
    locks.areFreeFor owner names = true := by
  refine List.all_eq_true.mpr fun name _ => ?_
  simp [isFreeFor, holder?, unlocked]

end LockTable

namespace Execution

variable {execution after : Execution} {locks table : LockTable} {node : ScheduledNode}

/-! ## Selecting while nothing runs -/

/-- No scheduled item is running. -/
def IsIdle (execution : Execution) : Prop :=
  ∀ item ∈ execution.schedule.items, execution.state item ≠ .running

/-- How many scheduled items are waiting. -/
def waitingCount (execution : Execution) : Nat :=
  execution.schedule.items.countP fun item => decide (execution.state item = .waiting)

theorem IsIdle.isTerminal (idle : execution.IsIdle) {item : WorkItem}
    (scheduled : item ∈ execution.schedule.items) (started : execution.state item ≠ .waiting) :
    (execution.state item).isTerminal = true :=
  NodeState.isTerminal_of_ne started (idle item scheduled)

/-- The first waiting node in the order of the schedule has nothing left to wait for. -/
theorem Valid.exists_candidate (valid : execution.Valid) (idle : execution.IsIdle)
    (pending : execution.pending ≠ 0) :
    ∃ node ∈ execution.candidates, execution.state node.item = .waiting ∧
      execution.isReady node = true := by
  have open' : ∃ item ∈ execution.schedule.items, (execution.state item).isTerminal = false := by
    rw [valid.examined.pending, unfinished] at pending
    obtain ⟨item, member, unended⟩ := List.countP_pos_iff.mp (Nat.pos_of_ne_zero pending)
    exact ⟨item, member, by simpa using unended⟩
  obtain ⟨item, scheduled, unended⟩ := open'
  have waiting : execution.state item = .waiting := by
    by_contra started
    rw [idle.isTerminal scheduled started] at unended
    cases unended
  obtain ⟨listed, present, rfl⟩ := List.mem_map.mp scheduled
  cases found : execution.schedule.nodes.find? fun node =>
      decide (execution.state node.item = .waiting) with
  | none =>
      have absent := List.find?_eq_none.mp found listed present
      exact absurd (decide_eq_true waiting) absent
  | some node =>
      obtain ⟨nodeWaits, earlier, later, split, before⟩ := List.find?_eq_some_iff_append.mp found
      have nodeWaiting : execution.state node.item = .waiting := of_decide_eq_true nodeWaits
      have member : node ∈ execution.schedule.nodes := List.mem_of_find?_eq_some found
      have unsettled := valid.examined.unsettled node member nodeWaiting List.not_mem_nil
      have ready : execution.isReady node = true := by
        by_contra unready
        obtain ⟨waited, waits, unfinished⟩ := exists_unfinished_of_settled?_eq_none unsettled
          (Bool.eq_false_iff.mpr unready)
        obtain ⟨other, placed, same⟩ := List.mem_map.mp
          (valid.wellFormed.ordered earlier node later split waited waits)
        have started : execution.state other.item ≠ .waiting := by
          simpa using before other placed
        have otherScheduled : other.item ∈ execution.schedule.items :=
          Schedule.mem_items (split ▸ List.mem_append_left _ placed)
        rw [← same, idle.isTerminal otherScheduled started] at unfinished
        cases unfinished
      have offered := valid.examined.offered node member nodeWaiting List.not_mem_nil ready
      exact ⟨node, List.mem_filter.mpr ⟨member, decide_eq_true offered⟩, nodeWaiting, ready⟩

/-- No lost wake-up: while nothing runs and nothing is locked, a selection hands out a node
unless all is finished. -/
theorem Valid.select_ne_waiting (valid : execution.Valid) (idle : execution.IsIdle)
    (unlocked : locks.held = []) : (execution.select locks).1 ≠ .waiting := by
  generalize selected : execution.select locks = outcome
  obtain ⟨selection, after, table⟩ := outcome
  rintro rfl
  cases selects selected with
  | waiting pending unstartable =>
      obtain ⟨node, candidate, waiting, ready⟩ := valid.exists_candidate idle pending
      have blocked := unstartable node candidate
      have startable : execution.canStart locks node = true :=
        canStart_iff.mpr ⟨waiting, ready, LockTable.areFreeFor_of_held_eq_nil unlocked⟩
      rw [startable] at blocked
      cases blocked

/-! ## What runs -/

theorem running_select (selected : execution.select locks = (.ready node, after, table))
    (item : WorkItem) :
    after.state item = .running ↔ item = node.item ∨ execution.state item = .running := by
  cases selects selected with
  | ready =>
      rw [state_record]
      by_cases same : item = node.item
      · simp [same]
      · rw [if_neg same]
        exact (or_iff_right same).symm

theorem Valid.running_finishNode (valid : execution.Valid)
    (member : node ∈ execution.schedule.nodes)
    (running : execution.state node.item = .running) {outcome : TaskOutcome}
    {notifications : List Notification}
    (finished : execution.finishNode locks node outcome = (after, table, notifications))
    (item : WorkItem) :
    after.state item = .running ↔ item ≠ node.item ∧ execution.state item = .running := by
  rcases valid.finishNode_cases member finished with ⟨idle, _⟩ | ⟨_, _, _, _, moved⟩
  · exact absurd running idle
  have moved := moved item
  rw [state_record] at moved
  by_cases same : item = node.item
  · rw [if_pos same] at moved
    constructor
    · intro runs
      rw [runs] at moved
      rcases moved with ended | ⟨waiting, _⟩
      · cases outcome <;> cases ended
      · cases outcome <;> cases waiting
    · rintro ⟨different, _⟩
      exact absurd same different
  · rw [if_neg same] at moved
    rw [and_iff_right same]
    rcases moved with stayed | ⟨waiting, terminal⟩
    · rw [stayed]
    · rw [waiting]
      constructor
      · intro runs
        rw [runs] at terminal
        cases terminal
      · intro impossible
        cases impossible

/-! ## Draining -/

theorem waitingCount_le (execution : Execution) :
    execution.waitingCount ≤ execution.schedule.nodes.length := by
  have bound := List.countP_le_length (p := fun item => decide (execution.state item = .waiting))
    (l := execution.schedule.items)
  rwa [Schedule.items, List.length_map] at bound

/-- No call makes an item wait again. -/
theorem waitingCount_le_of_moves (schedule : after.schedule = execution.schedule)
    (moves : ∀ item, NodeState.Moves (execution.state item) (after.state item)) :
    after.waitingCount ≤ execution.waitingCount := by
  unfold waitingCount
  rw [schedule]
  refine List.countP_mono_left fun item _ still => ?_
  rw [decide_eq_true_eq] at still ⊢
  exact (moves item).eq_waiting still

/-- The node that is handed out waits no longer. -/
theorem Valid.waitingCount_select (valid : execution.Valid)
    (selected : execution.select locks = (.ready node, after, table)) :
    after.waitingCount + 1 = execution.waitingCount := by
  obtain ⟨member, waiting, _⟩ := valid.ready selected
  cases selects selected with
  | ready =>
      refine Counting.countP_of_leaves valid.wellFormed.distinct (Schedule.mem_items member)
        (decide_eq_true waiting) ?_ ?_
      · rw [state_record, if_pos rfl]
        rfl
      · intro other _ different
        rw [state_record, if_neg different]
        rfl

/-- A node that is handed out and finished at once leaves nothing running and nothing locked, and
waits no longer. -/
theorem Valid.turn (valid : execution.Valid) (idle : execution.IsIdle)
    (unlocked : locks.held = [])
    (selected : execution.select locks = (.ready node, after, table)) (outcome : TaskOutcome)
    {finished : Execution} {released : LockTable} {notifications : List Notification}
    (finishes : after.finishNode table node outcome = (finished, released, notifications)) :
    finished.Valid ∧ finished.IsIdle ∧ released.held = [] ∧
      finished.schedule = execution.schedule ∧
      finished.waitingCount + 1 ≤ execution.waitingCount := by
  obtain ⟨afterValid, selectedSchedule, _⟩ := valid.select selected
  obtain ⟨member, _, running, _⟩ := valid.ready selected
  rw [← selectedSchedule] at member
  obtain ⟨finishedValid, finishedSchedule, moves⟩ := afterValid.finishNode member finishes
  have schedule := finishedSchedule.trans selectedSchedule
  refine ⟨finishedValid, fun item scheduled runs => ?_, ?_, schedule, ?_⟩
  · obtain ⟨different, before⟩ :=
      (afterValid.running_finishNode member running finishes item).mp runs
    rcases (running_select selected item).mp before with same | earlier
    · exact different same
    · exact idle item (schedule ▸ scheduled) earlier
  · rcases afterValid.finishNode_cases member finishes with ⟨unstarted, _⟩ | ⟨_, rfl, _⟩
    · exact absurd running unstarted
    · cases selects selected with
      | ready => exact LockTable.release_acquire unlocked
  · have started := valid.waitingCount_select selected
    have fewer := waitingCount_le_of_moves finishedSchedule moves
    omega

/-- Draining comes to the end of the schedule, where everything has ended, and hands out at most as
many nodes as were waiting. -/
theorem drainSteps_finished (outcomeOf : ScheduledNode → TaskOutcome) {steps : Nat}
    {drained : Drained} (valid : drained.execution.Valid) (idle : drained.execution.IsIdle)
    (unlocked : drained.locks.held = []) (enough : drained.execution.waitingCount < steps) :
    let last := drainSteps outcomeOf steps drained
    last.isFinished = true ∧
      (∀ node ∈ drained.execution.schedule.nodes,
        (last.execution.state node.item).isTerminal = true) ∧
      last.ran.length ≤ drained.ran.length + drained.execution.waitingCount := by
  induction steps generalizing drained with
  | zero => exact absurd enough (Nat.not_lt_zero _)
  | succ steps ih =>
      unfold drainSteps
      split
      next node execution locks selected =>
        generalize finishes : execution.finishNode locks node (outcomeOf node) = result
        obtain ⟨finished, released, notifications⟩ := result
        obtain ⟨finishedValid, finishedIdle, unlockedAgain, schedule, fewer⟩ :=
          valid.turn idle unlocked selected (outcomeOf node) finishes
        obtain ⟨isFinished, terminal, bound⟩ := @ih { drained with
          execution := finished
          locks := released
          ran := drained.ran ++ [node]
          notifications := drained.notifications ++ notifications }
          finishedValid finishedIdle unlockedAgain
          (Nat.lt_of_lt_of_le fewer (Nat.lt_succ_iff.mp enough))
        refine ⟨isFinished, schedule ▸ terminal, Nat.le_trans bound ?_⟩
        simp only [List.length_append, List.length_cons, List.length_nil]
        omega
      next execution locks selected =>
        have progress := valid.select_ne_waiting idle unlocked
        rw [selected] at progress
        exact absurd rfl progress
      next execution locks selected =>
        cases selects selected with
        | finished completed =>
            exact ⟨rfl, fun node => valid.isTerminal_of_pending completed, Nat.le_add_right _ _⟩

theorem Valid.drain_finished (valid : execution.Valid) (idle : execution.IsIdle)
    (unlocked : locks.held = []) (outcomeOf : ScheduledNode → TaskOutcome) :
    let last := execution.drain locks outcomeOf
    last.isFinished = true ∧
      (∀ node ∈ execution.schedule.nodes, (last.execution.state node.item).isTerminal = true) ∧
      last.ran.length ≤ execution.schedule.nodes.length := by
  have bound := execution.waitingCount_le
  obtain ⟨finished, terminal, ran⟩ := @drainSteps_finished outcomeOf
    (execution.schedule.nodes.length + 1) { execution, locks } valid idle unlocked
    (Nat.lt_succ_of_le bound)
  refine ⟨finished, terminal, Nat.le_trans ran ?_⟩
  simpa using bound

end Execution

end TaskPlanner
