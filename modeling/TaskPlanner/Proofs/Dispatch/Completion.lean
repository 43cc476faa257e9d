import TaskPlanner.Dispatch.Rehearsal
import TaskPlanner.Proofs.Dispatch.Rounds
import TaskPlanner.Proofs.Execution.Determinism

/-! A run on an executor that reports every task comes to the end of its schedule. At every turn of
the loop the executor owes reports about exactly the running items, and one more item has ended. -/

set_option autoImplicit false

namespace TaskPlanner

namespace Execution

variable {execution after : Execution} {locks table : LockTable} {node : ScheduledNode}

/-- No call takes back that an item has ended. -/
theorem unfinished_le_of_moves (schedule : after.schedule = execution.schedule)
    (moves : ∀ item, NodeState.Moves (execution.state item) (after.state item)) :
    after.unfinished ≤ execution.unfinished := by
  unfold unfinished
  rw [schedule]
  refine List.countP_mono_left fun item _ open' => ?_
  rw [Bool.not_eq_true'] at open' ⊢
  by_contra ended
  rw [Bool.not_eq_false] at ended
  rw [(moves item).eq_of_isTerminal ended, ended] at open'
  cases open'

theorem unfinished_le (execution : Execution) :
    execution.unfinished ≤ execution.schedule.nodes.length := by
  have bound := List.countP_le_length (p := fun item => !(execution.state item).isTerminal)
    (l := execution.schedule.items)
  rwa [Schedule.items, List.length_map] at bound

theorem Valid.unfinished_finishNode (valid : execution.Valid)
    (member : node ∈ execution.schedule.nodes) (running : execution.state node.item = .running)
    {outcome : TaskOutcome} {notifications : List Notification}
    (finished : execution.finishNode locks node outcome = (after, table, notifications)) :
    after.unfinished < execution.unfinished := by
  rcases valid.finishNode_cases member finished with ⟨idle, _⟩ | ⟨_, _, _, schedule, moved⟩
  · exact absurd running idle
  have counted : (execution.record node.item (.ofOutcome outcome)).unfinished + 1 =
      execution.unfinished :=
    unfinished_record valid.wellFormed.distinct (Schedule.mem_items member) (by rw [running]; rfl)
      (NodeState.isTerminal_ofOutcome outcome)
  have fewer : after.unfinished ≤ (execution.record node.item (.ofOutcome outcome)).unfinished := by
    refine unfinished_le_of_moves schedule fun item => ?_
    rcases moved item with stayed | ⟨waiting, terminal⟩
    · rw [stayed]
      exact .stays _
    · rw [waiting]
      exact .settles terminal
  omega

end Execution

namespace Dispatch

/-- An executor that takes every task, and tells the outcome of each one once, whatever it is and in
whatever order. Nothing else comes from it while it is in a sound state. The tasks whose outcomes it
has not told yet are those of `owed`. -/
structure Executor.IsFaithful {σ : Type} (executor : Executor σ) (sound : σ → Prop)
    (owed : σ → List String) : Prop where
  spawn : ∀ tasks state, sound state → ∃ after, executor.spawn tasks state = (.ok (), after) ∧
    sound after ∧ (owed after).Perm (owed state ++ tasks)
  receive : ∀ state, sound state → owed state ≠ [] → ∃ task outcome after,
    executor.receive state = (.event (.completed (.task task) outcome), after) ∧
    sound after ∧ (owed state).Perm (task :: owed after)

namespace Run

variable {σ : Type} {executor : Executor σ} {sound : σ → Prop} {owed : σ → List String}
  {label : WorkItem → String} {maxWorkers rounds turns : Nat} {tasks dispatched : List String}
  {initial run next last : Run σ}

/-! ## Turns of the loop -/

/-- A turn after which the loop goes on, with the tasks that it dispatches. -/
inductive Turns (executor : Executor σ) (maxWorkers : Nat) (run : Run σ) :
    List String → Run σ → Prop where
  | turn {advanced next : Run σ} {item : WorkItem} {outcome : TaskOutcome} {state : σ} :
      run.dispatch executor (run.round maxWorkers) = (.ok (), advanced) → advanced.inFlight ≠ 0 →
      executor.receive advanced.executor = (.event (.completed item outcome), state) →
      take? { advanced with executor := state } item outcome = some next →
      Turns executor maxWorkers run (run.round maxWorkers).tasks next

/-- The last turn of a loop that comes to the end of the schedule. -/
structure Ends (executor : Executor σ) (maxWorkers : Nat) (run last : Run σ) : Prop where
  dispatches : run.dispatch executor (run.round maxWorkers) = (.ok (), last)
  landed : last.inFlight = 0
  finished : (run.round maxWorkers).isFinished = true

/-- The runs with which the loop begins a turn, each with the number of the turns before it and the
tasks that these dispatched. -/
inductive Heads (executor : Executor σ) (maxWorkers : Nat) (initial : Run σ) :
    Nat → List String → Run σ → Prop where
  | start : Heads executor maxWorkers initial 0 [] initial
  | turn {turns : Nat} {dispatched tasks : List String} {run next : Run σ} :
      Heads executor maxWorkers initial turns dispatched run →
      Turns executor maxWorkers run tasks next →
      Heads executor maxWorkers initial (turns + 1) (dispatched ++ tasks) next

theorem Turns.go_eq (step : Turns executor maxWorkers run tasks next) (label : WorkItem → String)
    (rounds : Nat) :
    go executor label maxWorkers (rounds + 1) run = go executor label maxWorkers rounds next := by
  obtain ⟨dispatches, flying, receives, taken⟩ := step
  simp [go, dispatches, flying, receives, taken]

theorem Heads.go_eq (head : Heads executor maxWorkers initial turns dispatched run)
    (label : WorkItem → String) (rounds : Nat) :
    go executor label maxWorkers (turns + rounds) initial =
      go executor label maxWorkers rounds run := by
  induction head generalizing rounds with
  | start => rw [Nat.zero_add]
  | @turn turns _ _ _ _ _ step ih =>
      rw [Nat.add_right_comm, Nat.add_assoc, ih, step.go_eq]

theorem Ends.go_eq (ends : Ends executor maxWorkers run last) (label : WorkItem → String)
    (rounds : Nat) :
    go executor label maxWorkers (rounds + 1) run = (.completed last.execution.summary, last) := by
  simp [go, ends.dispatches, ends.landed, ends.finished, complete]

/-! ## Books that agree -/

/-- The executor owes reports about exactly the running items, and as many are counted. -/
structure Balanced (sound : σ → Prop) (owed : σ → List String) (run : Run σ) : Prop where
  valid : run.execution.Valid
  exact : run.execution.HoldsExactly run.locks
  ready : sound run.executor
  carries : run.execution.Carries (owed run.executor)
  inFlight : run.inFlight = (owed run.executor).length

theorem Balanced.round (balanced : run.Balanced sound owed) (maxWorkers : Nat) :
    (run.round maxWorkers).IsSound (owed run.executor) ∧
      Round.Extends { execution := run.execution, locks := run.locks } (run.round maxWorkers) ∧
      (run.round maxWorkers).IsExhausted (maxWorkers - run.inFlight) := by
  refine Round.collect_sound ⟨balanced.valid, balanced.exact, ?_⟩ rfl
    (Nat.lt_succ_of_le run.execution.waitingCount_le)
  rw [List.append_nil]
  exact balanced.carries

theorem Balanced.dispatch (balanced : run.Balanced sound owed)
    (faithful : executor.IsFaithful sound owed) (maxWorkers : Nat) :
    ∃ advanced, run.dispatch executor (run.round maxWorkers) = (.ok (), advanced) ∧
      advanced.Balanced sound owed ∧ advanced.execution = (run.round maxWorkers).execution ∧
      advanced.inFlight = run.inFlight + (run.round maxWorkers).tasks.length := by
  obtain ⟨⟨valid, exact', carries⟩, _⟩ := balanced.round maxWorkers
  unfold Run.dispatch
  by_cases none : (run.round maxWorkers).tasks = []
  · rw [if_pos (by rw [none]; rfl)]
    rw [none, List.append_nil] at carries
    refine ⟨_, rfl, ⟨valid, exact', balanced.ready, carries, ?_⟩, rfl, rfl⟩
    rw [none]
    exact balanced.inFlight
  · rw [if_neg (by simpa using none)]
    obtain ⟨after, spawns, ready, same⟩ :=
      faithful.spawn (run.round maxWorkers).tasks run.executor balanced.ready
    rw [spawns]
    refine ⟨_, rfl, ⟨valid, exact', ready, carries.perm same.symm, ?_⟩, rfl, rfl⟩
    rw [same.length_eq, List.length_append, ← balanced.inFlight]

/-- While something is owed, a report comes, and with it one more item ends. -/
theorem Balanced.take (balanced : run.Balanced sound owed)
    (faithful : executor.IsFaithful sound owed) (flying : run.inFlight ≠ 0) :
    ∃ task outcome state next,
      executor.receive run.executor = (.event (.completed (.task task) outcome), state) ∧
      take? { run with executor := state } (.task task) outcome = some next ∧
      next.Balanced sound owed ∧ next.execution.schedule = run.execution.schedule ∧
      (∀ item, (run.execution.state item).Moves (next.execution.state item)) ∧
      next.execution.unfinished < run.execution.unfinished := by
  have owing : owed run.executor ≠ [] := by
    intro nothing
    exact flying (by rw [balanced.inFlight, nothing]; rfl)
  obtain ⟨task, outcome, state, receives, ready, same⟩ :=
    faithful.receive run.executor balanced.ready owing
  have carries := balanced.carries.perm same
  obtain ⟨scheduled, running⟩ := carries.mem_iff.mp List.mem_cons_self
  obtain ⟨node, member, own⟩ := List.mem_map.mp scheduled
  generalize finishes : run.execution.finishNode run.locks node outcome = result
  obtain ⟨finished, released, notifications⟩ := result
  have reported : run.execution.finish? run.locks (.task task) outcome =
      some (finished, released, notifications) := by
    rw [← own, Execution.finish?_eq_some balanced.valid.wellFormed member, finishes]
  obtain ⟨valid, schedule, moves⟩ := balanced.valid.finishNode member finishes
  refine ⟨task, outcome, state, _, receives, by simp only [take?, reported, Option.map_some]; rfl,
    ⟨valid, balanced.exact.finish balanced.valid reported, ready,
      carries.finish balanced.valid member own finishes, ?_⟩, schedule, moves,
    balanced.valid.unfinished_finishNode member (own ▸ running) finishes⟩
  show run.inFlight - 1 = (owed state).length
  rw [balanced.inFlight, same.length_eq]
  rfl

/-- The last turn leaves everything ended. Every other turn dispatches tasks that had not started,
and one more item ends. -/
theorem Balanced.turn (balanced : run.Balanced sound owed)
    (faithful : executor.IsFaithful sound owed) (workers : 1 ≤ maxWorkers) :
    (∃ last, Ends executor maxWorkers run last ∧ last.Balanced sound owed ∧
      last.execution.schedule = run.execution.schedule ∧ last.execution.pending = 0) ∨
    ∃ tasks next, Turns executor maxWorkers run tasks next ∧ next.Balanced sound owed ∧
      next.execution.schedule = run.execution.schedule ∧
      next.execution.unfinished < run.execution.unfinished := by
  obtain ⟨_, extended, exhausted⟩ := balanced.round maxWorkers
  obtain ⟨advanced, dispatches, advancedBalanced, same, counted⟩ :=
    balanced.dispatch faithful maxWorkers
  have schedule : advanced.execution.schedule = run.execution.schedule :=
    same ▸ extended.schedule
  by_cases landed : advanced.inFlight = 0
  · have nothing : owed advanced.executor = [] := by
      rw [← List.length_eq_zero_iff, ← advancedBalanced.inFlight, landed]
    have idle : (run.round maxWorkers).execution.IsIdle := by
      have carries := advancedBalanced.carries
      rw [nothing, same] at carries
      exact carries.isIdle
    -- There is room for a task and nothing runs, so only the end can have stopped the round.
    have finished : (run.round maxWorkers).isFinished = true := by
      by_contra open'
      rcases exhausted.unfinished (Bool.eq_false_iff.mpr open') with full | busy
      · omega
      · exact busy idle
    exact .inl ⟨advanced, ⟨dispatches, landed, finished⟩, advancedBalanced, schedule,
      same ▸ exhausted.finished finished⟩
  · obtain ⟨task, outcome, state, next, receives, taken, nextBalanced, kept, _, fewer⟩ :=
      advancedBalanced.take faithful landed
    have before : advanced.execution.unfinished ≤ run.execution.unfinished :=
      Execution.unfinished_le_of_moves schedule (same ▸ extended.moves)
    exact .inr ⟨_, next, .turn dispatches landed receives taken, nextBalanced,
      kept.trans schedule, by omega⟩

/-- The tasks that one turn dispatches have not started before it, and have started after it. -/
theorem Balanced.tasks_waiting (balanced : run.Balanced sound owed) (maxWorkers : Nat) :
    (run.round maxWorkers).tasks.Nodup ∧ ∀ task ∈ (run.round maxWorkers).tasks,
      .task task ∈ run.execution.schedule.items ∧ run.execution.state (.task task) = .waiting ∧
      (run.round maxWorkers).execution.state (.task task) ≠ .waiting := by
  obtain ⟨⟨_, _, carries⟩, extended, _⟩ := balanced.round maxWorkers
  refine ⟨carries.distinct.sublist (List.sublist_append_right _ _), fun task listed => ?_⟩
  obtain ⟨scheduled, running⟩ := carries.mem_iff.mp (List.mem_append_right _ listed)
  rw [extended.schedule] at scheduled
  refine ⟨scheduled, (extended.collected task listed).resolve_left List.not_mem_nil, ?_⟩
  rw [running]
  exact NodeState.noConfusion

theorem Turns.balanced (step : Turns executor maxWorkers run tasks next)
    (balanced : run.Balanced sound owed) (faithful : executor.IsFaithful sound owed) :
    next.Balanced sound owed ∧ next.execution.schedule = run.execution.schedule ∧
      tasks = (run.round maxWorkers).tasks ∧
      (∀ item, run.execution.state item ≠ .waiting → next.execution.state item ≠ .waiting) ∧
      ∀ task ∈ tasks, next.execution.state (.task task) ≠ .waiting := by
  obtain ⟨dispatches, flying, receives, taken⟩ := step
  obtain ⟨_, extended, _⟩ := balanced.round maxWorkers
  obtain ⟨advanced, dispatches', advancedBalanced, same, _⟩ :=
    balanced.dispatch faithful maxWorkers
  rw [dispatches] at dispatches'
  cases dispatches'
  obtain ⟨task, outcome, state, next, receives', taken', nextBalanced, kept, moves, _⟩ :=
    advancedBalanced.take faithful flying
  rw [receives] at receives'
  cases receives'
  rw [taken] at taken'
  cases taken'
  refine ⟨nextBalanced, kept.trans (same ▸ extended.schedule), rfl, fun item started => ?_,
    fun other listed => ?_⟩
  · exact (moves item).ne_waiting (same ▸ (extended.moves item).ne_waiting started)
  · refine (moves (.task other)).ne_waiting ?_
    rw [same]
    exact ((balanced.tasks_waiting maxWorkers).2 other listed).2.2

/-- At every turn the books agree, and what was dispatched has started. -/
theorem Heads.balanced (head : Heads executor maxWorkers initial turns dispatched run)
    (balanced : initial.Balanced sound owed) (faithful : executor.IsFaithful sound owed) :
    run.Balanced sound owed ∧ run.execution.schedule = initial.execution.schedule ∧
      dispatched.Nodup ∧ ∀ task ∈ dispatched, .task task ∈ initial.execution.schedule.items ∧
        run.execution.state (.task task) ≠ .waiting := by
  induction head with
  | start => exact ⟨balanced, rfl, List.nodup_nil, by simp⟩
  | @turn _ dispatched tasks run next _ step ih =>
      obtain ⟨runBalanced, schedule, distinct, started⟩ := ih
      obtain ⟨nextBalanced, kept, rfl, stays, starts⟩ := step.balanced runBalanced faithful
      obtain ⟨newDistinct, fresh⟩ := runBalanced.tasks_waiting maxWorkers
      refine ⟨nextBalanced, kept.trans schedule,
        List.nodup_append.mpr ⟨distinct, newDistinct, ?_⟩, fun task listed => ?_⟩
      · rintro task earlier _ now rfl
        exact (started task earlier).2 (fresh task now).2.1
      · rcases List.mem_append.mp listed with earlier | now
        · exact ⟨(started task earlier).1, stays _ (started task earlier).2⟩
        · exact ⟨schedule ▸ (fresh task now).1, starts task now⟩

/-- With enough turns the loop comes to the end of the schedule, and with fewer it is only cut
short. -/
theorem Balanced.go (balanced : run.Balanced sound owed)
    (faithful : executor.IsFaithful sound owed) (workers : 1 ≤ maxWorkers)
    (label : WorkItem → String) (rounds : Nat) :
    (∃ last, Run.go executor label maxWorkers rounds run =
        (.completed last.execution.summary, last) ∧ last.Balanced sound owed ∧
        last.execution.schedule = run.execution.schedule ∧ last.execution.pending = 0) ∨
      (Run.go executor label maxWorkers rounds run).1 = .unfinished ∧
        rounds ≤ run.execution.unfinished := by
  induction rounds generalizing run with
  | zero => exact .inr ⟨rfl, Nat.zero_le _⟩
  | succ rounds ih =>
      rcases balanced.turn faithful workers with
        ⟨last, ends, lastBalanced, schedule, ended⟩ |
        ⟨tasks, next, step, nextBalanced, schedule, fewer⟩
      · exact .inl ⟨last, ends.go_eq label rounds, lastBalanced, schedule, ended⟩
      · rw [step.go_eq]
        rcases ih nextBalanced with ⟨last, completed, lastBalanced, kept, ended⟩ | ⟨cut, bound⟩
        · exact .inl ⟨last, completed, lastBalanced, kept.trans schedule, ended⟩
        · exact .inr ⟨cut, by omega⟩

/-- A run of an execution that has its locks for itself. -/
def alone (execution : Execution) (executor : σ) : Run σ := { execution, locks := {}, executor }

theorem balanced_alone {schedule : Schedule} (wellFormed : schedule.WellFormed) (name : String)
    (policy : FailurePolicy) (handlers : List String) {state : σ} (ready : sound state)
    (nothing : owed state = []) :
    (alone (.start name schedule policy handlers) state).Balanced sound owed := by
  have valid := (Execution.valid_start wellFormed name policy handlers).1
  have carries := Execution.carries_start wellFormed name policy handlers
  refine ⟨valid, Execution.holdsExactly_start wellFormed name policy handlers, ready, ?_, ?_⟩
  · rw [show (alone _ state).executor = state from rfl, nothing]
    exact carries
  · rw [show (alone _ state).executor = state from rfl, nothing]
    rfl

end Run

/-- On an executor that reports every task, a plan comes to its end. Whenever the loop begins a
turn, as many tasks are in flight as items run, and no task is dispatched twice. The run never
fails, and once it may take more turns than there are nodes it completes, with nothing left to
report and every item in a final state. -/
theorem go_completes {plan : Plan} (reachable : plan.Reachable) {schedule : Schedule}
    (finalized : plan.finalize.result = .ok schedule) (name : String) (policy : FailurePolicy)
    (handlers : List String) {σ : Type} {executor : Executor σ} {sound : σ → Prop}
    {owed : σ → List String} (faithful : executor.IsFaithful sound owed) {state : σ}
    (ready : sound state) (nothing : owed state = []) (label : WorkItem → String)
    {maxWorkers : Nat} (workers : 1 ≤ maxWorkers) :
    let initial := Run.alone (.start name schedule policy handlers) state
    (∀ turns dispatched run, Run.Heads executor maxWorkers initial turns dispatched run →
      (∀ rounds, Run.go executor label maxWorkers (turns + rounds) initial =
        Run.go executor label maxWorkers rounds run) ∧
      run.inFlight = (run.execution.itemsIn .running).length ∧
      (dispatched ++ (run.round maxWorkers).tasks).Nodup ∧
      ∀ task ∈ dispatched ++ (run.round maxWorkers).tasks, .task task ∈ schedule.items) ∧
    (∀ rounds error, (Run.go executor label maxWorkers rounds initial).1 ≠ .failed error) ∧
    ∀ rounds, schedule.nodes.length < rounds → ∃ last,
      Run.go executor label maxWorkers rounds initial =
        (.completed last.execution.summary, last) ∧
      owed last.executor = [] ∧ last.execution.schedule = schedule ∧
      ∀ item ∈ schedule.items, (last.execution.state item).isTerminal = true := by
  intro initial
  have wellFormed := reachable.wellFormed_of_finalize finalized
  have balanced : initial.Balanced sound owed :=
    Run.balanced_alone wellFormed name policy handlers ready nothing
  have scheduled : initial.execution.schedule = schedule :=
    (Execution.valid_start wellFormed name policy handlers).2.1
  refine ⟨fun turns dispatched run head => ?_, fun rounds error failed => ?_,
    fun rounds enough => ?_⟩
  · obtain ⟨runBalanced, kept, distinct, started⟩ := head.balanced balanced faithful
    obtain ⟨newDistinct, unstarted⟩ := runBalanced.tasks_waiting maxWorkers
    rw [kept, scheduled] at unstarted
    rw [scheduled] at started
    refine ⟨head.go_eq label, ?_, List.nodup_append.mpr ⟨distinct, newDistinct, ?_⟩,
      fun task listed => ?_⟩
    · rw [runBalanced.inFlight,
        runBalanced.carries.length_itemsIn runBalanced.valid.wellFormed.distinct]
    · rintro task earlier _ now rfl
      exact (started task earlier).2 (unstarted task now).2.1
    · rcases List.mem_append.mp listed with earlier | now
      · exact (started task earlier).1
      · exact (unstarted task now).1
  · rcases balanced.go faithful workers label rounds with ⟨last, completed, _⟩ | ⟨cut, _⟩
    · rw [completed] at failed
      cases failed
    · rw [cut] at failed
      cases failed
  · have bound := initial.execution.unfinished_le
    rw [scheduled] at bound
    rcases balanced.go faithful workers label rounds with
      ⟨last, completed, lastBalanced, kept, done⟩ | ⟨_, short⟩
    · have ended : ∀ item ∈ last.execution.schedule.items,
          (last.execution.state item).isTerminal = true := by
        intro item member
        obtain ⟨node, listed, rfl⟩ := List.mem_map.mp member
        exact lastBalanced.valid.isTerminal_of_pending done listed
      refine ⟨last, completed, lastBalanced.carries.eq_nil ended, kept.trans scheduled, ?_⟩
      rwa [kept, scheduled] at ended
    · omega

/-! ## Rehearsals -/

namespace Rehearsal

/-- The task whose outcome an event reports. -/
def reported? : Event → Option String
  | .completed item _ => item.taskName?
  | .shutdown => none

/-- The tasks whose outcomes are queued. -/
def owed (rehearsal : Rehearsal) : List String := rehearsal.queue.filterMap reported?

/-- Nothing but the outcomes of tasks is going to happen, and no task is left out. -/
structure IsPlain (rehearsal : Rehearsal) : Prop where
  ignored : rehearsal.script.ignored = []
  events : rehearsal.script.events = []
  hangUpAfter : rehearsal.script.hangUpAfter = none
  refusedAt : rehearsal.script.refusedAt = none
  hasHungUp : rehearsal.hasHungUp = false
  queue : ∀ event ∈ rehearsal.queue, ∃ task outcome, event = .completed (.task task) outcome

/-- A rehearsal of outcomes alone queues the outcome of every task. -/
theorem IsPlain.spawn_eq {rehearsal : Rehearsal} (plain : rehearsal.IsPlain) (tasks : List String) :
    rehearsal.spawn tasks = (.ok (),
      { rehearsal with
        dispatches := rehearsal.dispatches + 1
        requests := rehearsal.requests ++ [.spawn tasks]
        queue := rehearsal.queue ++
          (if rehearsal.script.reversed then tasks.reverse else tasks).map fun task =>
            .completed (.task task) (rehearsal.script.outcomeOf task) }) := by
  obtain ⟨ignored, events, hangUpAfter, refusedAt, hasHungUp, _⟩ := plain
  simp [spawn, Script.eventsAfter, Script.reports, ignored, events, hangUpAfter, refusedAt,
    hasHungUp]

/-- Without further events, a rehearsal reports every task once. -/
theorem isFaithful_executor : executor.IsFaithful IsPlain owed where
  spawn tasks rehearsal plain := by
    refine ⟨_, plain.spawn_eq tasks, ?_, ?_⟩
    · obtain ⟨ignored, events, hangUpAfter, refusedAt, hasHungUp, queue⟩ := plain
      refine ⟨ignored, events, hangUpAfter, refusedAt, hasHungUp, fun event queued => ?_⟩
      rcases List.mem_append.mp queued with earlier | now
      · exact queue event earlier
      · obtain ⟨task, _, rfl⟩ := List.mem_map.mp now
        exact ⟨task, _, rfl⟩
    · -- Only the order of the reports depends on the script.
      have told (names : List String) : (names.map fun task =>
          Event.completed (.task task) (rehearsal.script.outcomeOf task)).filterMap reported? =
            names := by
        rw [List.filterMap_map]
        exact List.filterMap_some
      rw [owed, List.filterMap_append, told]
      refine List.Perm.append_left _ ?_
      split
      · exact tasks.reverse_perm
      · exact .refl _
  receive rehearsal plain owing := by
    obtain ⟨ignored, events, hangUpAfter, refusedAt, hasHungUp, queue⟩ := plain
    rcases pending : rehearsal.queue with _ | ⟨event, rest⟩
    · rw [owed, pending] at owing
      exact absurd rfl owing
    rw [pending] at queue
    obtain ⟨task, outcome, rfl⟩ := queue event List.mem_cons_self
    refine ⟨task, outcome, { rehearsal with queue := rest }, ?_, ?_, ?_⟩
    · simp [executor, receive, pending]
    · exact ⟨ignored, events, hangUpAfter, refusedAt, hasHungUp,
        fun event queued => queue event (List.mem_cons_of_mem _ queued)⟩
    · rw [owed, pending]
      exact .refl _

end Rehearsal

/-- Two workers come to the end of the fork, however badly the compilation goes and although the
last task that was handed out is reported first. -/
theorem go_completes_fork :
    Plan.fork.Reachable ∧ Plan.fork.finalize.result = .ok .fork ∧
      ∃ last, Run.go Rehearsal.executor WorkItem.displayName 2 4
          (Run.alone (.start "build" .fork .proceed [])
            (Script.rehearse { outcomes := [("compile", .failed 1)], reversed := true })) =
        (.completed last.execution.summary, last) ∧
        (∀ item ∈ Schedule.fork.items, (last.execution.state item).isTerminal = true) := by
  have plain : (Script.rehearse
      { outcomes := [("compile", .failed 1)], reversed := true }).IsPlain :=
    ⟨rfl, rfl, rfl, rfl, rfl, nofun⟩
  obtain ⟨last, completed, _, _, ended⟩ :=
    (go_completes Plan.reachable_fork Plan.finalize_fork "build" .proceed []
      Rehearsal.isFaithful_executor plain rfl WorkItem.displayName (by decide : 1 ≤ 2)).2.2 4
      (by decide)
  exact ⟨Plan.reachable_fork, Plan.finalize_fork, last, completed, ended⟩

end Dispatch

end TaskPlanner
