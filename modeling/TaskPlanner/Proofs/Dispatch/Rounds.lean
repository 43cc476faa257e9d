import TaskPlanner.Dispatch
import TaskPlanner.Proofs.Execution.Locking

/-! The tasks that one dispatch collects. What runs when a round is over is what ran before and what
the round collected: items of other builds have come and gone in between. -/

set_option autoImplicit false

namespace TaskPlanner

namespace Execution

variable {execution after : Execution} {locks table : LockTable} {node : ScheduledNode}
  {tasks others : List String} {task : String}

/-! ## Running items -/

/-- The running items are the tasks of the list, each listed once. -/
structure Carries (execution : Execution) (tasks : List String) : Prop where
  distinct : tasks.Nodup
  running : ∀ item, item ∈ tasks.map WorkItem.task ↔
    item ∈ execution.schedule.items ∧ execution.state item = .running

theorem Carries.perm (carries : execution.Carries tasks) (same : tasks.Perm others) :
    execution.Carries others where
  distinct := same.nodup_iff.mp carries.distinct
  running item := (same.map WorkItem.task).mem_iff.symm.trans (carries.running item)

theorem Carries.congr (carries : execution.Carries tasks)
    (schedule : after.schedule = execution.schedule)
    (running : ∀ item, after.state item = .running ↔ execution.state item = .running) :
    after.Carries tasks where
  distinct := carries.distinct
  running item := by rw [carries.running, schedule, running]

theorem Carries.mem_iff (carries : execution.Carries tasks) :
    task ∈ tasks ↔ .task task ∈ execution.schedule.items ∧
      execution.state (.task task) = .running := by
  rw [← carries.running, List.mem_map]
  constructor
  · intro listed
    exact ⟨task, listed, rfl⟩
  · rintro ⟨_, listed, ⟨⟩⟩
    exact listed

theorem Carries.length_itemsIn (carries : execution.Carries tasks)
    (distinct : execution.schedule.items.Nodup) :
    (execution.itemsIn .running).length = tasks.length := by
  have named : (tasks.map WorkItem.task).Nodup :=
    carries.distinct.map fun _ _ same => WorkItem.task.inj same
  have same : (execution.itemsIn .running).Perm (tasks.map WorkItem.task) :=
    (List.perm_ext_iff_of_nodup (distinct.filter _) named).mpr fun item =>
      mem_itemsIn.trans (carries.running item).symm
  rw [same.length_eq, List.length_map]

theorem Carries.isIdle (carries : execution.Carries []) : execution.IsIdle :=
  fun item scheduled runs => List.not_mem_nil ((carries.running item).mpr ⟨scheduled, runs⟩)

/-- Once every item has ended, no task runs. -/
theorem Carries.eq_nil (carries : execution.Carries tasks)
    (ended : ∀ item ∈ execution.schedule.items, (execution.state item).isTerminal = true) :
    tasks = [] := by
  refine List.eq_nil_iff_forall_not_mem.mpr fun task listed => ?_
  obtain ⟨scheduled, running⟩ := carries.mem_iff.mp listed
  have terminal := ended _ scheduled
  rw [running] at terminal
  cases terminal

theorem carries_start {schedule : Schedule} (wellFormed : schedule.WellFormed) (name : String)
    (policy : FailurePolicy) (handlers : List String) :
    (start name schedule policy handlers).Carries [] := by
  refine ⟨List.nodup_nil, fun item => ⟨nofun, fun ⟨_, running⟩ => ?_⟩⟩
  rcases (valid_start wellFormed name policy handlers).2.2 item with waiting | terminal
  · rw [running] at waiting
    cases waiting
  · rw [running] at terminal
    cases terminal

/-- A task that is handed out runs with those that ran before. -/
theorem Carries.select (carries : execution.Carries tasks) (valid : execution.Valid)
    (selected : execution.select locks = (.ready node, after, table))
    (own : node.item = .task task) : after.Carries (tasks ++ [task]) := by
  obtain ⟨member, waiting, _⟩ := valid.ready selected
  have scheduled := Schedule.mem_items member
  have schedule := (valid.select selected).2.1
  have fresh : task ∉ tasks := by
    intro listed
    have runs := (carries.mem_iff.mp listed).2
    rw [← own, waiting] at runs
    cases runs
  refine ⟨List.nodup_append.mpr ⟨carries.distinct, List.nodup_singleton _, ?_⟩, fun item => ?_⟩
  · rintro _ listed _ last rfl
    rw [List.mem_singleton] at last
    exact fresh (last ▸ listed)
  · rw [List.map_append, List.mem_append, carries.running, running_select selected, schedule]
    simp only [List.map_cons, List.map_nil, List.mem_singleton, ← own]
    constructor
    · rintro (⟨inside, runs⟩ | rfl)
      · exact ⟨inside, .inr runs⟩
      · exact ⟨scheduled, .inl rfl⟩
    · rintro ⟨inside, rfl | runs⟩
      · exact .inr rfl
      · exact .inl ⟨inside, runs⟩

/-- A task that ended is not running, and the others are. -/
theorem Carries.finish (carries : execution.Carries (task :: tasks)) (valid : execution.Valid)
    (member : node ∈ execution.schedule.nodes) (own : node.item = .task task)
    {outcome : TaskOutcome} {notifications : List Notification}
    (finished : execution.finishNode locks node outcome = (after, table, notifications)) :
    after.Carries tasks := by
  obtain ⟨fresh, distinct⟩ := List.nodup_cons.mp carries.distinct
  have running : execution.state node.item = .running := by
    rw [own]
    exact (carries.mem_iff.mp List.mem_cons_self).2
  have schedule := (valid.finishNode member finished).2.1
  refine ⟨distinct, fun item => ?_⟩
  rw [schedule, valid.running_finishNode member running finished, own, and_left_comm,
    ← carries.running, List.map_cons, List.mem_cons]
  constructor
  · intro listed
    refine ⟨?_, .inr listed⟩
    rintro rfl
    obtain ⟨_, inside, ⟨⟩⟩ := List.mem_map.mp listed
    exact fresh inside
  · rintro ⟨different, listed⟩
    exact listed.resolve_left different

/-- A node that is no task is done as soon as it is handed out, and the same tasks run. -/
theorem Carries.delegate (carries : execution.Carries tasks) (valid : execution.Valid)
    (selected : execution.select locks = (.ready node, after, table)) {finished : Execution}
    {released : LockTable} {notifications : List Notification}
    (finishes : after.finishNode table node .success = (finished, released, notifications)) :
    finished.Carries tasks := by
  obtain ⟨member, waiting, running, _⟩ := valid.ready selected
  obtain ⟨afterValid, schedule, _⟩ := valid.select selected
  have listed : node ∈ after.schedule.nodes := schedule ▸ member
  obtain ⟨_, kept, _⟩ := afterValid.finishNode listed finishes
  refine carries.congr (kept.trans schedule) fun item => ?_
  rw [afterValid.running_finishNode listed running finishes, running_select selected]
  constructor
  · rintro ⟨different, runs⟩
    exact runs.resolve_left different
  · intro runs
    refine ⟨?_, .inr runs⟩
    rintro rfl
    rw [waiting] at runs
    cases runs

end Execution

/-! ## Collecting -/

namespace Dispatch.Round

variable {before middle after round : Round} {busy : List String} {room steps : Nat}

/-- What collecting does, as long as there is room for more. -/
inductive Collects (room : Nat) : Round → Round → Prop where
  | stop (round : Round) : Collects room round round
  | task {round last : Round} {node : ScheduledNode} {execution : Execution} {locks : LockTable}
      {task : String} : round.tasks.length < room →
      round.execution.select round.locks = (.ready node, execution, locks) →
      node.item = .task task →
      Collects room { round with execution, locks, tasks := round.tasks ++ [task] } last →
      Collects room round last
  | delegate {round last : Round} {node : ScheduledNode} {execution finished : Execution}
      {locks released : LockTable} {notifications : List Notification} :
      round.execution.select round.locks = (.ready node, execution, locks) →
      execution.finishNode locks node .success = (finished, released, notifications) →
      Collects room
        { round with
          execution := finished
          locks := released
          notifications := round.notifications ++ notifications } last →
      Collects room round last
  | waiting {round : Round} {execution : Execution} {locks : LockTable} :
      round.execution.select round.locks = (.waiting, execution, locks) →
      Collects room round { round with execution, locks }
  | finished {round : Round} {execution : Execution} {locks : LockTable} :
      round.execution.select round.locks = (.finished, execution, locks) →
      Collects room round { round with execution, locks, isFinished := true }

theorem collects (room steps : Nat) (round : Round) :
    Collects room round (collect room steps round) := by
  induction steps generalizing round with
  | zero => exact .stop round
  | succ steps ih =>
      unfold collect
      split
      next => exact .stop round
      next open' =>
        split
        next node execution locks selected =>
          split
          next task named =>
            have own := WorkItem.taskName?_eq_some_iff.mp named
            exact .task (Nat.not_le.mp open') selected own (ih _)
          next => exact .delegate selected rfl (ih _)
        next execution locks selected => exact .waiting selected
        next execution locks selected => exact .finished selected

theorem Collects.valid (collects : Collects room round after) (valid : round.execution.Valid) :
    after.execution.Valid ∧ after.execution.schedule = round.execution.schedule := by
  induction collects with
  | stop => exact ⟨valid, rfl⟩
  | task _ selected _ _ ih =>
      obtain ⟨selectedValid, schedule, _⟩ := valid.select selected
      exact (ih selectedValid).imp_right (·.trans schedule)
  | @delegate round _ node execution _ _ _ _ selected finishes _ ih =>
      obtain ⟨selectedValid, schedule, _⟩ := valid.select selected
      have member : node ∈ execution.schedule.nodes := schedule ▸ (valid.ready selected).1
      obtain ⟨finishedValid, kept, _⟩ := selectedValid.finishNode member finishes
      exact (ih finishedValid).imp_right (·.trans (kept.trans schedule))
  | waiting selected =>
      obtain ⟨selectedValid, schedule, _⟩ := valid.select selected
      exact ⟨selectedValid, schedule⟩
  | finished selected =>
      obtain ⟨selectedValid, schedule, _⟩ := valid.select selected
      exact ⟨selectedValid, schedule⟩

/-- Collecting keeps the locks exact, beside what was held before. -/
theorem Collects.holdsBeside {base : LockTable} (collects : Collects room round after)
    (valid : round.execution.Valid)
    (beside : Execution.HoldsBeside base round.execution round.locks) :
    Execution.HoldsBeside base after.execution after.locks := by
  induction collects with
  | stop => exact beside
  | task _ selected _ _ ih => exact ih (valid.select selected).1 (beside.select valid selected)
  | @delegate round _ node execution _ _ _ _ selected finishes _ ih =>
      obtain ⟨selectedValid, schedule, _⟩ := valid.select selected
      have member : node ∈ execution.schedule.nodes := schedule ▸ (valid.ready selected).1
      have reported := (Execution.finish?_eq_some selectedValid.wellFormed member .success).trans
        (congrArg some finishes)
      exact ih (selectedValid.finishNode member finishes).1
        ((beside.select valid selected).finish selectedValid reported)
  | waiting selected => exact beside.select valid selected
  | finished selected => exact beside.select valid selected

/-- The tasks of `busy` were running when the round began, and nobody else uses the locks. -/
structure IsSound (busy : List String) (round : Round) : Prop where
  valid : round.execution.Valid
  exact : round.execution.HoldsExactly round.locks
  carries : round.execution.Carries (busy ++ round.tasks)

/-- More was collected in `after` than in `before`: tasks that had not started. -/
structure Extends (before after : Round) : Prop where
  schedule : after.execution.schedule = before.execution.schedule
  moves : ∀ item, (before.execution.state item).Moves (after.execution.state item)
  collected : ∀ task ∈ after.tasks, task ∈ before.tasks ∨
    before.execution.state (.task task) = .waiting

/-- Either all is finished, or there is no room for more tasks, or something is still running. -/
structure IsExhausted (room : Nat) (round : Round) : Prop where
  finished : round.isFinished = true → round.execution.pending = 0
  unfinished : round.isFinished = false →
    room ≤ round.tasks.length ∨ ¬ round.execution.IsIdle

theorem Extends.refl (round : Round) : round.Extends round :=
  ⟨rfl, fun _ => .stays _, fun _ => .inl⟩

theorem Extends.trans (first : before.Extends middle) (second : middle.Extends after) :
    before.Extends after where
  schedule := second.schedule.trans first.schedule
  moves item := (first.moves item).trans (second.moves item)
  collected task listed := by
    rcases second.collected task listed with earlier | waiting
    · exact first.collected task earlier
    · exact .inr ((first.moves (.task task)).eq_waiting waiting)

section Select

variable {execution : Execution} {locks : LockTable} {node : ScheduledNode}
  (sound : round.IsSound busy)
  (selected : round.execution.select round.locks = (.ready node, execution, locks))
include sound selected

/-- A task that is handed out is collected. -/
theorem IsSound.collect {task : String} (own : node.item = .task task) :
    let next : Round := { round with execution, locks, tasks := round.tasks ++ [task] }
    next.IsSound busy ∧ round.Extends next ∧
      next.execution.waitingCount + 1 = round.execution.waitingCount := by
  obtain ⟨valid, schedule, moves⟩ := sound.valid.select selected
  have carries := sound.carries.select sound.valid selected own
  rw [List.append_assoc] at carries
  refine ⟨⟨valid, sound.exact.select sound.valid selected, carries⟩,
    ⟨schedule, moves, fun other listed => ?_⟩, sound.valid.waitingCount_select selected⟩
  refine (List.mem_append.mp listed).imp_right fun last => ?_
  rw [List.mem_singleton.mp last, ← own]
  exact (sound.valid.ready selected).2.1

/-- An item of another build is done as soon as it is handed out. -/
theorem IsSound.delegate {finished : Execution} {released : LockTable}
    {notifications : List Notification}
    (finishes : execution.finishNode locks node .success = (finished, released, notifications)) :
    let next : Round :=
      { round with
        execution := finished
        locks := released
        notifications := round.notifications ++ notifications }
    next.IsSound busy ∧ round.Extends next ∧
      next.execution.waitingCount + 1 ≤ round.execution.waitingCount := by
  have member := (sound.valid.ready selected).1
  obtain ⟨valid, schedule, moves⟩ := sound.valid.select selected
  have listed : node ∈ execution.schedule.nodes := schedule ▸ member
  obtain ⟨finishedValid, kept, ends⟩ := valid.finishNode listed finishes
  have fewer := Execution.waitingCount_le_of_moves kept ends
  have counted := sound.valid.waitingCount_select selected
  have reported := (Execution.finish?_eq_some valid.wellFormed listed .success).trans
    (congrArg some finishes)
  have exact' := (sound.exact.select sound.valid selected).finish valid reported
  refine ⟨⟨finishedValid, exact', sound.carries.delegate sound.valid selected finishes⟩,
    ⟨kept.trans schedule, fun item => (moves item).trans (ends item), fun _ => .inl⟩, ?_⟩
  show finished.waitingCount + 1 ≤ _
  omega

end Select

/-- Collecting comes to its end: the steps it may take are enough. -/
theorem collect_sound (sound : round.IsSound busy) (open' : round.isFinished = false)
    (enough : round.execution.waitingCount < steps) :
    (collect room steps round).IsSound busy ∧ round.Extends (collect room steps round) ∧
      (collect room steps round).IsExhausted room := by
  induction steps generalizing round with
  | zero => exact absurd enough (Nat.not_lt_zero _)
  | succ steps ih =>
      unfold collect
      split
      next full =>
        refine ⟨sound, .refl round, fun finished => ?_, fun _ => .inl full⟩
        rw [open'] at finished
        cases finished
      next =>
        split
        next node execution locks selected =>
          split
          next task named =>
            have own := WorkItem.taskName?_eq_some_iff.mp named
            obtain ⟨nextSound, extended, fewer⟩ := sound.collect selected own
            obtain ⟨lastSound, further, exhausted⟩ := ih nextSound open' (by omega)
            exact ⟨lastSound, extended.trans further, exhausted⟩
          next =>
            generalize finishes : execution.finishNode locks node .success = result
            obtain ⟨finished, released, notifications⟩ := result
            obtain ⟨nextSound, extended, fewer⟩ := sound.delegate selected finishes
            obtain ⟨lastSound, further, exhausted⟩ := ih nextSound open' (by omega)
            exact ⟨lastSound, extended.trans further, exhausted⟩
        next execution locks selected =>
          obtain ⟨valid, schedule, moves⟩ := sound.valid.select selected
          have exact' := sound.exact.select sound.valid selected
          have progress := fun idle =>
            sound.valid.select_ne_waiting idle (sound.exact.held_eq_nil idle)
          rw [selected] at progress
          cases Execution.selects selected with
          | waiting =>
              have carries := sound.carries.congr schedule fun _ => Iff.rfl
              refine ⟨⟨valid, exact', carries⟩, ⟨schedule, moves, fun _ => .inl⟩,
                fun finished => ?_, fun _ => .inr fun idle => progress idle rfl⟩
              rw [open'] at finished
              cases finished
        next execution locks selected =>
          cases Execution.selects selected with
          | finished ended =>
              exact ⟨⟨sound.valid, sound.exact, sound.carries⟩,
                ⟨rfl, fun _ => .stays _, fun _ => .inl⟩, fun _ => ended, nofun⟩

end Dispatch.Round

end TaskPlanner
