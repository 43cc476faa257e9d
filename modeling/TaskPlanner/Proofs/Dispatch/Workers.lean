import TaskPlanner.Proofs.Dispatch.Completion

/-! How many tasks run at once. The loop counts the reports that are still to come, and makes room
for a task with each one that arrives. A report about something that does not run is counted as
well, and from then on one more task may run than there are workers. -/

set_option autoImplicit false

namespace TaskPlanner

namespace Execution

variable {execution after : Execution} {locks table : LockTable} {node : ScheduledNode}
  {tasks : List String}

/-- The tasks that run. Items of other builds are not among them. -/
def runningTasks (execution : Execution) : List WorkItem :=
  (execution.itemsIn .running).filter (·.taskName?.isSome)

theorem Carries.length_runningTasks (carries : execution.Carries tasks)
    (distinct : execution.schedule.items.Nodup) :
    execution.runningTasks.length = tasks.length := by
  have named : ∀ item ∈ execution.itemsIn .running, item.taskName?.isSome = true := by
    intro item running
    obtain ⟨task, _, rfl⟩ := List.mem_map.mp ((carries.running item).mpr (mem_itemsIn.mp running))
    rfl
  rw [runningTasks, List.filter_eq_self.mpr named, carries.length_itemsIn distinct]

/-- What is handed out without being a task is not counted. -/
theorem Valid.runningTasks_select (valid : execution.Valid)
    (selected : execution.select locks = (.ready node, after, table))
    (foreign : node.item.taskName? = none) : after.runningTasks = execution.runningTasks := by
  unfold runningTasks itemsIn
  rw [List.filter_filter, List.filter_filter, (valid.select selected).2.1]
  refine List.filter_congr fun item _ => ?_
  rw [Bool.eq_iff_iff, Bool.and_eq_true, Bool.and_eq_true, decide_eq_true_eq, decide_eq_true_eq,
    running_select selected]
  refine and_congr_right fun named => or_iff_right ?_
  rintro rfl
  rw [foreign] at named
  cases named

theorem runningTasks_close (execution : Execution) :
    execution.close.runningTasks = execution.runningTasks := by
  have schedule : execution.close.schedule = execution.schedule :=
    close_induction (·.schedule = execution.schedule) (fun _ => rfl) rfl fun _ _ _ => id
  unfold runningTasks itemsIn
  rw [schedule]
  congr 1
  exact List.filter_congr fun item _ => decide_eq_decide.mpr (running_close execution item)

/-- A report about an item that does not run changes nothing. -/
theorem Valid.finish?_eq (valid : execution.Valid) {item : WorkItem} {outcome : TaskOutcome}
    {notifications : List Notification} (idle : execution.state item ≠ .running)
    (finished : execution.finish? locks item outcome = some (after, table, notifications)) :
    after = execution := by
  obtain ⟨node, member, rfl, finishes⟩ := finishNode_of_finish? finished
  rcases valid.finishNode_cases member finishes with ⟨_, same, _⟩ | ⟨running, _⟩
  · exact same
  · exact absurd running idle

/-- After a report about an item, the other tasks run. If the item was one of those that ran, they are
one fewer. -/
theorem Carries.report (carries : execution.Carries tasks) (valid : execution.Valid)
    {item : WorkItem} {outcome : TaskOutcome} {notifications : List Notification}
    (finished : execution.finish? locks item outcome = some (after, table, notifications)) :
    let others := tasks.filter fun task => WorkItem.task task ≠ item
    after.Carries others ∧ (execution.state item = .running → tasks.length = others.length + 1) ∧
      (execution.state item ≠ .running → others = tasks) := by
  intro others
  by_cases running : execution.state item = .running
  · obtain ⟨node, member, rfl, finishes⟩ := finishNode_of_finish? finished
    obtain ⟨task, listed, own⟩ := List.mem_map.mp
      ((carries.running node.item).mpr ⟨Schedule.mem_items member, running⟩)
    have moved := List.perm_cons_erase listed
    have erased : tasks.erase task = others := by
      rw [carries.distinct.erase_eq_filter]
      refine List.filter_congr fun other _ => ?_
      rw [← own, Bool.eq_iff_iff, bne_iff_ne, decide_eq_true_eq]
      exact not_congr (WorkItem.task.injEq other task).to_iff.symm
    rw [erased] at moved
    exact ⟨(carries.perm moved).finish valid member own.symm finishes, fun _ => moved.length_eq,
      absurd running⟩
  · have same : others = tasks := by
      refine List.filter_eq_self.mpr fun task listed => decide_eq_true ?_
      rintro rfl
      exact running (carries.mem_iff.mp listed).2
    rw [same, valid.finish?_eq running finished]
    exact ⟨carries, (absurd · running), fun _ => rfl⟩

end Execution

namespace Dispatch

/-! ## Collecting -/

namespace Round

variable {round : Round} {busy : List String} {room : Nat}

/-- At any step of collecting, the collected tasks run beside those that ran before. -/
theorem Collects.carries {after : Round} (collects : Collects room round after)
    (valid : round.execution.Valid) (carries : round.execution.Carries (busy ++ round.tasks))
    (fits : round.tasks.length ≤ room) :
    after.execution.Carries (busy ++ after.tasks) ∧ after.tasks.length ≤ room := by
  induction collects with
  | stop => exact ⟨carries, fits⟩
  | task smaller selected own _ ih =>
      have collected := carries.select valid selected own
      rw [List.append_assoc] at collected
      refine ih (valid.select selected).1 collected ?_
      rw [List.length_append, List.length_singleton]
      exact smaller
  | @delegate round _ node execution _ _ _ _ selected finishes _ ih =>
      obtain ⟨selectedValid, schedule, _⟩ := valid.select selected
      have member : node ∈ execution.schedule.nodes := schedule ▸ (valid.ready selected).1
      exact ih (selectedValid.finishNode member finishes).1
        (carries.delegate valid selected finishes) fits
  | waiting selected =>
      cases Execution.selects selected with
      | waiting => exact ⟨carries.congr rfl fun _ => Iff.rfl, fits⟩
  | finished selected =>
      cases Execution.selects selected with
      | finished => exact ⟨carries, fits⟩

end Round

/-! ## The points of a run -/

namespace Run

variable {σ : Type} {executor : Executor σ} {label : WorkItem → String}
  {maxWorkers strays slots : Nat} {initial run next : Run σ} {execution : Execution}
  {item : WorkItem}

/-- A turn in which the loop receives a report about `item` and goes on. -/
inductive Takes (executor : Executor σ) (maxWorkers : Nat) (run : Run σ) (item : WorkItem) :
    Run σ → Prop where
  | take {advanced next : Run σ} {outcome : TaskOutcome} {state : σ} :
      run.dispatch executor (run.round maxWorkers) = (.ok (), advanced) → advanced.inFlight ≠ 0 →
      executor.receive advanced.executor = (.event (.completed item outcome), state) →
      take? { advanced with executor := state } item outcome = some next →
      Takes executor maxWorkers run item next

/-- A turn in which the loop waits for news, with the run once `delivery` has come. -/
inductive Receives (executor : Executor σ) (maxWorkers : Nat) (run : Run σ) (delivery : Delivery) :
    Run σ → Prop where
  | receive {advanced : Run σ} {state : σ} :
      run.dispatch executor (run.round maxWorkers) = (.ok (), advanced) → advanced.inFlight ≠ 0 →
      executor.receive advanced.executor = (delivery, state) →
      Receives executor maxWorkers run delivery { advanced with executor := state }

/-- The ways in which a turn can be the last one. -/
inductive Ceases (executor : Executor σ) (label : WorkItem → String) (maxWorkers : Nat)
    (run : Run σ) : Conclusion → Run σ → Prop where
  | finished {last : Run σ} : Ends executor maxWorkers run last →
      Ceases executor label maxWorkers run (.completed last.execution.summary) last
  | hungUp {received : Run σ} : Receives executor maxWorkers run .hungUp received →
      Ceases executor label maxWorkers run (.completed received.stop.execution.summary) received.stop
  | shutdown {received : Run σ} {cancelled : σ} :
      Receives executor maxWorkers run (.event .shutdown) received →
      executor.cancelAll received.executor = (.ok (), cancelled) →
      Ceases executor label maxWorkers run (.completed received.stop.execution.summary)
        { received.stop with executor := cancelled }
  | unspawned {last : Run σ} {text : String} :
      run.dispatch executor (run.round maxWorkers) = (.error text, last) →
      Ceases executor label maxWorkers run (.failed (.executor text)) last
  | stuck {last : Run σ} : run.dispatch executor (run.round maxWorkers) = (.ok (), last) →
      last.inFlight = 0 → (run.round maxWorkers).isFinished = false →
      Ceases executor label maxWorkers run (.failed .noProgress) last
  | uncancelled {received : Run σ} {text : String} {cancelled : σ} :
      Receives executor maxWorkers run (.event .shutdown) received →
      executor.cancelAll received.executor = (.error text, cancelled) →
      Ceases executor label maxWorkers run (.failed (.executor text))
        { received.stop with executor := cancelled }
  | unplanned {received : Run σ} {item : WorkItem} {outcome : TaskOutcome} :
      Receives executor maxWorkers run (.event (.completed item outcome)) received →
      take? received item outcome = none →
      Ceases executor label maxWorkers run (.failed (.notPlanned (label item))) received
  | silent {received : Run σ} : Receives executor maxWorkers run .silent received →
      Ceases executor label maxWorkers run .silent received

/-- The runs with which the loop begins a turn, each with the number of reports before it that were
about items not running. -/
inductive Strays (executor : Executor σ) (maxWorkers : Nat) (initial : Run σ) :
    Nat → Run σ → Prop where
  | start : Strays executor maxWorkers initial 0 initial
  | report {strays : Nat} {run next : Run σ} {item : WorkItem} :
      Strays executor maxWorkers initial strays run → Takes executor maxWorkers run item next →
      (run.round maxWorkers).execution.state item = .running →
      Strays executor maxWorkers initial strays next
  | stray {strays : Nat} {run next : Run σ} {item : WorkItem} :
      Strays executor maxWorkers initial strays run → Takes executor maxWorkers run item next →
      (run.round maxWorkers).execution.state item ≠ .running →
      Strays executor maxWorkers initial (strays + 1) next

/-- The first steps of the round with which a turn begins. -/
def roundUpTo (maxWorkers steps : Nat) (run : Run σ) : Round :=
  Round.collect (maxWorkers - run.inFlight) steps
    { execution := run.execution, locks := run.locks }

/-- What a run goes through: the execution, with the number of workers in use as the loop counts
them, and the number of reports that were about items not running. -/
inductive Points (executor : Executor σ) (maxWorkers : Nat) (initial : Run σ) :
    Nat → Nat → Execution → Prop where
  | collect {strays : Nat} {run : Run σ} (steps : Nat) :
      Strays executor maxWorkers initial strays run →
      Points executor maxWorkers initial strays
        (run.inFlight + (run.roundUpTo maxWorkers steps).tasks.length)
        (run.roundUpTo maxWorkers steps).execution
  /-- An item that is no task has been handed out, and is about to be finished on the spot. -/
  | delegate {strays : Nat} {run : Run σ} {steps : Nat} {node : ScheduledNode}
      {execution : Execution} {locks : LockTable} :
      Strays executor maxWorkers initial strays run →
      (run.roundUpTo maxWorkers steps).execution.select (run.roundUpTo maxWorkers steps).locks =
        (.ready node, execution, locks) →
      node.item.taskName? = none →
      Points executor maxWorkers initial strays
        (run.inFlight + (run.roundUpTo maxWorkers steps).tasks.length) execution
  | stop {strays slots : Nat} {execution : Execution} :
      Points executor maxWorkers initial strays slots execution →
      Points executor maxWorkers initial strays slots execution.close

/-- As many tasks run as workers are in use, and one more for each stray report. -/
structure Counts (maxWorkers strays slots : Nat) (execution : Execution) (tasks : List String) :
    Prop where
  valid : execution.Valid
  carries : execution.Carries tasks
  counted : tasks.length = slots + strays
  fits : slots ≤ maxWorkers

theorem Counts.collect {tasks : List String}
    (counts : Counts maxWorkers strays run.inFlight run.execution tasks) (steps : Nat) :
    Counts maxWorkers strays (run.inFlight + (run.roundUpTo maxWorkers steps).tasks.length)
      (run.roundUpTo maxWorkers steps).execution
      (tasks ++ (run.roundUpTo maxWorkers steps).tasks) := by
  have carries : run.execution.Carries (tasks ++ []) := (List.append_nil tasks).symm ▸ counts.carries
  have collects : Round.Collects (maxWorkers - run.inFlight)
      { execution := run.execution, locks := run.locks } (run.roundUpTo maxWorkers steps) :=
    Round.collects _ _ _
  obtain ⟨collected, room⟩ := collects.carries counts.valid carries (Nat.zero_le _)
  refine ⟨(collects.valid counts.valid).1, collected, ?_, ?_⟩
  · rw [List.length_append, counts.counted]
    exact Nat.add_right_comm _ _ _
  · have fits := counts.fits
    omega

theorem dispatch_eq {advanced : Run σ} {round : Round} {answer : Except String Unit}
    (dispatches : run.dispatch executor round = (answer, advanced)) :
    advanced.execution = round.execution ∧ advanced.locks = round.locks ∧
      advanced.inFlight = run.inFlight + round.tasks.length := by
  unfold dispatch at dispatches
  split at dispatches
  · cases dispatches
    exact ⟨rfl, rfl, rfl⟩
  · cases dispatches
    exact ⟨rfl, rfl, rfl⟩

theorem collects_round (maxWorkers : Nat) (run : Run σ) :
    Round.Collects (maxWorkers - run.inFlight) { execution := run.execution, locks := run.locks }
      (run.round maxWorkers) := Round.collects _ _ _

theorem round_eq (maxWorkers : Nat) (run : Run σ) :
    run.round maxWorkers =
      run.roundUpTo maxWorkers (run.execution.schedule.nodes.length + 1) := rfl

/-- A report frees a worker. If it is about an item that runs, one task fewer runs, and otherwise it
is one more stray report. -/
theorem Counts.take {tasks : List String}
    (counts : Counts maxWorkers strays run.inFlight run.execution tasks)
    (takes : Takes executor maxWorkers run item next) :
    ((run.round maxWorkers).execution.state item = .running →
      ∃ rest, Counts maxWorkers strays next.inFlight next.execution rest) ∧
    ((run.round maxWorkers).execution.state item ≠ .running →
      ∃ rest, Counts maxWorkers (strays + 1) next.inFlight next.execution rest) := by
  obtain ⟨dispatches, flying, _, taken⟩ := takes
  have collected := counts.collect (run.execution.schedule.nodes.length + 1)
  rw [← round_eq] at collected
  obtain ⟨same, _, counter⟩ := dispatch_eq dispatches
  rw [← same, ← counter] at collected
  obtain ⟨⟨after, table, notifications⟩, finished, rfl⟩ := Option.map_eq_some_iff.mp taken
  obtain ⟨valid, carries, counted, fits⟩ := collected
  obtain ⟨left, ended, ignored⟩ := carries.report valid finished
  have afterValid := (valid.step (.finish finished)).1
  rw [← same]
  constructor
  · intro running
    have fewer := ended running
    exact ⟨_, afterValid, left, by dsimp only; omega, by dsimp only; omega⟩
  · intro idle
    have kept := congrArg List.length (ignored idle)
    exact ⟨_, afterValid, left, by dsimp only; omega, by dsimp only; omega⟩

theorem Strays.counts (initialCounts : Counts maxWorkers 0 initial.inFlight initial.execution [])
    (head : Strays executor maxWorkers initial strays run) :
    ∃ tasks, Counts maxWorkers strays run.inFlight run.execution tasks := by
  induction head with
  | start => exact ⟨[], initialCounts⟩
  | report _ takes running ih =>
      obtain ⟨tasks, counts⟩ := ih
      exact (counts.take takes).1 running
  | stray _ takes idle ih =>
      obtain ⟨tasks, counts⟩ := ih
      exact (counts.take takes).2 idle

theorem Points.counts (initialCounts : Counts maxWorkers 0 initial.inFlight initial.execution [])
    (point : Points executor maxWorkers initial strays slots execution) :
    execution.runningTasks.length = slots + strays ∧ slots ≤ maxWorkers := by
  induction point with
  | collect steps head =>
      obtain ⟨tasks, counts⟩ := head.counts initialCounts
      have collected := counts.collect steps
      rw [collected.carries.length_runningTasks collected.valid.wellFormed.distinct]
      exact ⟨collected.counted, collected.fits⟩
  | @delegate _ steps _ _ _ head selected foreign =>
      obtain ⟨tasks, counts⟩ := head.counts initialCounts
      have collected := counts.collect steps
      rw [collected.valid.runningTasks_select selected foreign,
        collected.carries.length_runningTasks collected.valid.wellFormed.distinct]
      exact ⟨collected.counted, collected.fits⟩
  | stop _ ih =>
      rw [Execution.runningTasks_close]
      exact ih

theorem Receives.execution_eq {delivery : Delivery} {received : Run σ}
    (receives : Receives executor maxWorkers run delivery received) :
    received.execution = (run.round maxWorkers).execution ∧
      received.locks = (run.round maxWorkers).locks := by
  obtain ⟨dispatches, _, _⟩ := receives
  obtain ⟨execution, locks, _⟩ := dispatch_eq dispatches
  exact ⟨execution, locks⟩

/-- What the last turn leaves is what it collected, unless it closes the execution. -/
theorem Ceases.execution_eq {conclusion : Conclusion} {last : Run σ}
    (ceases : Ceases executor label maxWorkers run conclusion last) :
    (last.execution = (run.round maxWorkers).execution ∨
      last.execution = (run.round maxWorkers).execution.close) ∧
    last.locks = (run.round maxWorkers).locks := by
  cases ceases with
  | finished ends =>
      obtain ⟨execution, locks, _⟩ := dispatch_eq ends.dispatches
      exact ⟨.inl execution, locks⟩
  | hungUp receives =>
      obtain ⟨execution, locks⟩ := receives.execution_eq
      exact ⟨.inr (congrArg Execution.close execution), locks⟩
  | shutdown receives =>
      obtain ⟨execution, locks⟩ := receives.execution_eq
      exact ⟨.inr (congrArg Execution.close execution), locks⟩
  | unspawned dispatches =>
      obtain ⟨execution, locks, _⟩ := dispatch_eq dispatches
      exact ⟨.inl execution, locks⟩
  | stuck dispatches =>
      obtain ⟨execution, locks, _⟩ := dispatch_eq dispatches
      exact ⟨.inl execution, locks⟩
  | uncancelled receives =>
      obtain ⟨execution, locks⟩ := receives.execution_eq
      exact ⟨.inr (congrArg Execution.close execution), locks⟩
  | unplanned receives => exact receives.execution_eq.imp_left .inl
  | silent receives => exact receives.execution_eq.imp_left .inl

/-- A turn takes a report and goes on, or is the last one. -/
theorem go_cases (executor : Executor σ) (label : WorkItem → String) (maxWorkers rounds : Nat)
    (run : Run σ) :
    (∃ item next, Takes executor maxWorkers run item next ∧
      go executor label maxWorkers (rounds + 1) run = go executor label maxWorkers rounds next) ∨
    ∃ conclusion last, Ceases executor label maxWorkers run conclusion last ∧
      go executor label maxWorkers (rounds + 1) run = (conclusion, last) := by
  rcases dispatches : run.dispatch executor (run.round maxWorkers) with ⟨_ | _, advanced⟩
  · exact .inr ⟨_, _, .unspawned dispatches, by simp only [go, dispatches]⟩
  by_cases landed : advanced.inFlight = 0
  · cases finished : (run.round maxWorkers).isFinished with
    | true =>
        have ends : Ends executor maxWorkers run advanced := ⟨dispatches, landed, finished⟩
        exact .inr ⟨_, _, .finished ends, ends.go_eq label rounds⟩
    | false =>
        exact .inr ⟨_, _, .stuck dispatches landed finished,
          by simp [go, dispatches, landed, finished]⟩
  rcases receives : executor.receive advanced.executor with ⟨delivery, state⟩
  have received := Receives.receive dispatches landed receives
  simp only [go, dispatches, landed, if_false, receives]
  cases delivery with
  | silent => exact .inr ⟨_, _, .silent received, rfl⟩
  | hungUp => exact .inr ⟨_, _, .hungUp received, rfl⟩
  | event event =>
      cases event with
      | shutdown =>
          rcases cancels : executor.cancelAll state with ⟨_ | _, cancelled⟩
          · exact .inr ⟨_, _, .uncancelled received cancels, by simp only [cancels]⟩
          · exact .inr ⟨_, _, .shutdown received cancels, by simp only [cancels, complete]⟩
      | completed item outcome =>
          cases taken : take? { advanced with executor := state } item outcome with
          | none => exact .inr ⟨_, _, .unplanned received taken, by simp only [taken]⟩
          | some next =>
              exact .inl ⟨item, next, .take dispatches landed receives taken, by simp only [taken]⟩

/-- What the loop leaves at its end is a point of the run. -/
theorem Strays.exists_points_go (head : Strays executor maxWorkers initial strays run)
    (label : WorkItem → String) (rounds : Nat) :
    ∃ strays slots, Points executor maxWorkers initial strays slots
      (go executor label maxWorkers rounds run).2.execution := by
  induction rounds generalizing run strays with
  | zero => exact ⟨_, _, .collect 0 head⟩
  | succ rounds ih =>
      rcases go_cases executor label maxWorkers rounds run with
        ⟨item, next, takes, same⟩ | ⟨_, last, ceases, same⟩
      · rw [same]
        by_cases running : (run.round maxWorkers).execution.state item = .running
        · exact ih (head.report takes running)
        · exact ih (head.stray takes running)
      · rw [same]
        have point : Points executor maxWorkers initial strays _ (run.round maxWorkers).execution :=
          .collect (run.execution.schedule.nodes.length + 1) head
        rcases ceases.execution_eq.1 with open' | closed
        · exact ⟨_, _, open' ▸ point⟩
        · exact ⟨_, _, closed ▸ point.stop⟩

theorem counts_alone {schedule : Schedule} (wellFormed : schedule.WellFormed) (name : String)
    (policy : FailurePolicy) (handlers : List String) (maxWorkers : Nat) :
    Counts maxWorkers 0 0 (.start name schedule policy handlers) [] where
  valid := (Execution.valid_start wellFormed name policy handlers).1
  carries := Execution.carries_start wellFormed name policy handlers
  counted := rfl
  fits := Nat.zero_le _

end Run

open Run

/-- The loop takes no more workers than there are, and as many tasks run as it takes workers for,
and one more for each report that was about an item not running. So the limit on the workers is
kept as long as no such report arrives. This holds on every executor, at every point of a run,
and so where the run ends. -/
theorem running_tasks_eq {plan : Plan} (reachable : plan.Reachable) {schedule : Schedule}
    (finalized : plan.finalize.result = .ok schedule) (name : String) (policy : FailurePolicy)
    (handlers : List String) {σ : Type} (executor : Executor σ) (state : σ) (locks : LockTable)
    (maxWorkers : Nat) :
    let initial : Run σ :=
      { execution := .start name schedule policy handlers, locks, executor := state }
    (∀ strays slots execution, Points executor maxWorkers initial strays slots execution →
      execution.runningTasks.length = slots + strays ∧ slots ≤ maxWorkers ∧
        (strays = 0 → execution.runningTasks.length ≤ maxWorkers)) ∧
    ∀ label rounds, ∃ strays slots, Points executor maxWorkers initial strays slots
      (Run.go executor label maxWorkers rounds initial).2.execution := by
  intro initial
  have counts : Counts maxWorkers 0 initial.inFlight initial.execution [] :=
    counts_alone (reachable.wellFormed_of_finalize finalized) name policy handlers maxWorkers
  have begun : Strays executor maxWorkers initial 0 initial := .start
  refine ⟨fun strays slots execution point => ?_, begun.exists_points_go⟩
  obtain ⟨running, fits⟩ := point.counts counts
  exact ⟨running, fits, by omega⟩

end Dispatch

/-! ## Reports that come twice -/

/-- A plan of three tasks, none of which depends on another. -/
def Plan.trio : Plan :=
  (Plan.seed { name := "build" }
    [{ item := .task "lint" }, { item := .task "compile" }, { item := .task "test" }]).plan

theorem Plan.reachable_trio : Plan.trio.Reachable := .seed _ (.new "build")

def Schedule.trio : Schedule :=
  .ofNodes
    [{ item := .task "lint", isEntry := true }, { item := .task "compile", isEntry := true },
      { item := .task "test", isEntry := true }]
    []

theorem Plan.finalize_trio : Plan.trio.finalize.result = .ok .trio := rfl

namespace Dispatch

open Run

/-- The three tasks with one worker. While the second of them runs, the first is reported again, and
then the user stops the run. -/
def twiceReported : Run Rehearsal :=
  { execution := .start "build" .trio .stop []
    locks := {}
    executor := Script.rehearse
      { events := [(2, .completed (.task "lint") .success), (2, .shutdown)] } }

/-- After its second report, the first task is the only stray, and one slot is in use. -/
theorem points_twiceReported :
    ∃ execution, Points Rehearsal.executor 1 twiceReported 1 1 execution ∧
      execution.runningTasks = [.task "compile", .task "test"] := by
  have begun : Strays Rehearsal.executor 1 twiceReported 0 twiceReported := .start
  have reported := begun.report (.take rfl (by decide) rfl rfl) rfl
  have again := reported.stray (.take rfl (by decide) rfl rfl) (by decide)
  exact ⟨_, .collect 4 again, rfl⟩

/-- With one worker, two tasks run after the second report of the first task. -/
theorem running_tasks_eq_twiceReported :
    Plan.trio.finalize.result = .ok .trio ∧
      ∃ execution, Points Rehearsal.executor 1 twiceReported 1 1 execution ∧
        execution.runningTasks.length = 1 + 1 := by
  obtain ⟨execution, point, _⟩ := points_twiceReported
  exact ⟨Plan.finalize_trio, execution, point,
    ((running_tasks_eq Plan.reachable_trio Plan.finalize_trio "build" .stop []
      Rehearsal.executor _ _ 1).1 1 1 execution point).1⟩

/-- The second report of the first task makes room for the third task, although the second one still
runs on the only worker. -/
theorem exceeded_twiceReported :
    Plan.trio.Reachable ∧ Plan.trio.finalize.result = .ok .trio ∧
      ∃ strays slots execution, Points Rehearsal.executor 1 twiceReported strays slots execution ∧
        execution.runningTasks = [.task "compile", .task "test"] := by
  obtain ⟨execution, point, both⟩ := points_twiceReported
  exact ⟨Plan.reachable_trio, Plan.finalize_trio, 1, 1, execution, point, both⟩

end Dispatch

end TaskPlanner
