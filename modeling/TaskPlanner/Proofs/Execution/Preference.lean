import TaskPlanner.Proofs.Execution.Locking
import TaskPlanner.Proofs.Execution.Readiness
import TaskPlanner.Proofs.Execution.Retirement
import TaskPlanner.Proofs.Execution.Sequence

/-! Which finalizers come before other work. A finalizer joins the line when something that it
finalizes has run. A selection takes out of the line whatever it comes to, also what cannot start
yet, and from then on that has to wait for its place in the schedule. -/

set_option autoImplicit false

namespace TaskPlanner

theorem NodeState.Moves.isExecuted_of_running {state : NodeState} (moves : Moves .running state)
    (stopped : state ≠ .running) : state.isExecuted = true := by
  generalize same : NodeState.running = before at moves
  cases moves with
  | stays => exact absurd same.symm stopped
  | starts => cases same
  | ends outcome => cases outcome <;> rfl
  | settles => cases same

namespace Execution

variable {initial execution before after : Execution} {locks table : LockTable}
  {node finalizer : ScheduledNode} {node? : Option ScheduledNode} {handed : List ScheduledNode}
  {item target : WorkItem}

/-! ## What a call does to the line -/

theorem preferred_close (execution : Execution) :
    execution.close.preferred = execution.preferred :=
  close_induction (·.preferred = execution.preferred) (fun _ => rfl) rfl fun _ _ _ => id

theorem mem_finalizersOf :
    node ∈ execution.finalizersOf item ↔ node ∈ execution.schedule.nodes ∧ item ∈ node.finalizes := by
  simp [finalizersOf]

theorem running_select_iff {selection : Selection}
    (selected : execution.select locks = (selection, after, table)) (item : WorkItem) :
    after.state item = .running ↔
      (∃ node ∈ selection.node?, node.item = item) ∨ execution.state item = .running := by
  cases selection with
  | ready node =>
      rw [running_select selected item]
      simp [Selection.node?, eq_comm]
  | waiting =>
      cases selects selected
      exact (or_iff_right (by simp [Selection.node?])).symm
  | finished =>
      cases selects selected
      exact (or_iff_right (by simp [Selection.node?])).symm

/-- A report does nothing, or one item runs no longer and its finalizers are put in line. -/
theorem Valid.finish?_ends (valid : execution.Valid) {outcome : TaskOutcome}
    {notifications : List Notification}
    (finished : execution.finish? locks item outcome = some (after, table, notifications)) :
    after = execution ∨ ∃ ended : ScheduledNode, execution.state ended.item = .running ∧
      after.preferred = execution.preferred ++ execution.finalizersOf ended.item ∧
      ∀ item, after.state item = .running ↔
        item ≠ ended.item ∧ execution.state item = .running := by
  obtain ⟨ended, member, _, finishes⟩ := finishNode_of_finish? finished
  rcases valid.finishNode_cases member finishes with ⟨_, same, _⟩ | ⟨ran, _⟩
  · exact .inl same
  · have runs := valid.running_finishNode member ran finishes
    rw [finishNode_of_running ran] at finishes
    cases finishes
    exact .inr ⟨ended, ran, rfl, runs⟩

theorem Valid.running_cases (valid : execution.Valid) (step : execution.Step node? after)
    (running : after.state item = .running) :
    (∃ node ∈ node?, node.item = item) ∨ execution.state item = .running := by
  cases step with
  | select selected => exact (running_select_iff selected item).mp running
  | finish finished =>
      rcases valid.finish?_ends finished with rfl | ⟨ended, _, _, runs⟩
      · exact .inr running
      · exact .inr ((runs item).mp running).2
  | close => exact .inr ((running_close execution item).mp running)

theorem Valid.mem_preferred_of_ended (valid : execution.Valid) (step : execution.Step node? after)
    (running : execution.state target = .running) (stopped : after.state target ≠ .running)
    (scheduled : finalizer ∈ execution.schedule.nodes) (finalizes : target ∈ finalizer.finalizes) :
    finalizer ∈ after.preferred := by
  cases step with
  | select selected => exact absurd ((running_select_iff selected target).mpr (.inr running)) stopped
  | finish finished =>
      rcases valid.finish?_ends finished with rfl | ⟨ended, _, line, runs⟩
      · exact absurd running stopped
      · have same : target = ended.item := by
          by_contra different
          exact stopped ((runs target).mpr ⟨different, running⟩)
        rw [line]
        exact List.mem_append_right _ (mem_finalizersOf.mpr ⟨scheduled, same ▸ finalizes⟩)
  | close => exact absurd ((running_close execution target).mpr running) stopped

/-- A selection takes a finalizer out of the line that can start only to hand it out. -/
theorem Valid.mem_preferred_select (valid : execution.Valid) {selection : Selection}
    (selected : execution.select locks = (selection, after, table))
    (listed : finalizer ∈ execution.preferred)
    (startable : execution.canStart locks finalizer = true)
    (waiting : after.state finalizer.item = .waiting) : finalizer ∈ after.preferred := by
  cases selection with
  | ready node =>
      obtain ⟨chosen, rest⟩ := valid.select_ready selected
      rw [rest]
      cases first : execution.preferred.find? (execution.canStart locks) with
      | none => exact absurd startable (List.find?_eq_none.mp first finalizer listed)
      | some other =>
          rw [first] at chosen
          cases chosen
          obtain ⟨_, front, behind, split, blocked⟩ := List.find?_eq_some_iff_append.mp first
          have apart : ∀ other ∈ front, decide (other ≠ node) = true := by
            intro other earlier
            refine decide_eq_true ?_
            rintro rfl
            have := blocked other earlier
            simp [List.find?_some first] at this
          rw [split, List.dropWhile_append_of_pos apart]
          rw [split] at listed
          rcases List.mem_append.mp listed with earlier | later
          · have := blocked finalizer earlier
            simp [startable] at this
          · rcases List.mem_cons.mp later with rfl | later
            · rw [(valid.ready selected).2.2.1] at waiting
              cases waiting
            · simpa using later
  | waiting =>
      rw [valid.canStart_eq_false selected (valid.preferred listed)] at startable
      cases startable
  | finished =>
      cases selects selected
      exact listed

/-! ## What stands in line -/

/-- Everything in line finalizes something that was executed. -/
def LineIsDue (execution : Execution) : Prop :=
  ∀ node ∈ execution.preferred, ∃ target ∈ node.finalizes,
    (execution.state target).isExecuted = true

theorem LineIsDue.step (due : execution.LineIsDue) (valid : execution.Valid)
    (step : execution.Step node? after) : after.LineIsDue := by
  have moves := (valid.step step).2.2
  have kept : ∀ node ∈ execution.preferred, ∃ target ∈ node.finalizes,
      (after.state target).isExecuted = true := by
    intro node listed
    obtain ⟨target, finalizes, executed⟩ := due node listed
    refine ⟨target, finalizes, ?_⟩
    rw [(moves target).eq_of_isTerminal (NodeState.isTerminal_of_isExecuted executed)]
    exact executed
  cases step with
  | select selected =>
      cases selects selected with
      | finished => exact kept
      | waiting => exact fun node absent => absurd absent List.not_mem_nil
      | ready _ _ subset => exact fun node listed => kept node (subset listed)
  | finish finished =>
      rcases valid.finish?_ends finished with rfl | ⟨ended, ran, line, runs⟩
      · exact kept
      · have stopped := (runs ended.item).not.mpr fun both => both.1 rfl
        have executed := (ran ▸ moves ended.item).isExecuted_of_running stopped
        intro node listed
        rw [line] at listed
        rcases List.mem_append.mp listed with earlier | joined
        · exact kept node earlier
        · exact ⟨ended.item, (mem_finalizersOf.mp joined).2, executed⟩
  | close =>
      intro node listed
      rw [preferred_close] at listed
      exact kept node listed

theorem Runs.lineIsDue (runs : Runs initial handed execution) (valid : initial.Valid)
    (due : initial.LineIsDue) : execution.LineIsDue := by
  induction runs with
  | start => exact due
  | call earlier step ih => exact ih.step (earlier.sound valid).1 step

/-- The finalizer is in line, or will join it when a running item ends. -/
def Expects (execution : Execution) (finalizer : ScheduledNode) : Prop :=
  finalizer ∈ execution.preferred ∨ ∃ target ∈ finalizer.finalizes,
    execution.state target = .running

/-- A selection that comes to a finalizer in line which cannot start, while nothing that it finalizes
runs. -/
inductive PassesOver (execution : Execution) (finalizer : ScheduledNode) :
    Option ScheduledNode → Execution → Prop where
  | intro {locks table : LockTable} {selection : Selection} {after : Execution} :
      execution.select locks = (selection, after, table) → finalizer ∈ execution.preferred →
      execution.canStart locks finalizer = false →
      (∀ target ∈ finalizer.finalizes, execution.state target ≠ .running) →
      PassesOver execution finalizer selection.node? after

/-- A run that passed over a finalizer, and has handed out nothing since that it finalizes. -/
inductive TurnedAway (initial : Execution) (finalizer : ScheduledNode) :
    List ScheduledNode → Execution → Prop where
  | passed {handed : List ScheduledNode} {before after : Execution}
      {node? : Option ScheduledNode} :
      Runs initial handed before → before.PassesOver finalizer node? after →
      (∀ node ∈ node?, node.item ∉ finalizer.finalizes) →
      TurnedAway initial finalizer (handed ++ node?.toList) after
  | call {handed : List ScheduledNode} {before after : Execution}
      {node? : Option ScheduledNode} :
      TurnedAway initial finalizer handed before → before.Step node? after →
      (∀ node ∈ node?, node.item ∉ finalizer.finalizes) →
      TurnedAway initial finalizer (handed ++ node?.toList) after

theorem PassesOver.step (passes : execution.PassesOver finalizer node? after) :
    execution.Step node? after := by
  cases passes with
  | intro selected => exact .select selected

theorem TurnedAway.runs (turned : TurnedAway initial finalizer handed execution) :
    Runs initial handed execution := by
  induction turned with
  | passed earlier passes => exact .call earlier passes.step
  | call _ step _ ih => exact .call ih step

theorem Valid.rests_step (valid : execution.Valid) (step : execution.Step node? after)
    (apart : ∀ node ∈ node?, node.item ∉ finalizer.finalizes)
    (rested : ∀ target ∈ finalizer.finalizes, execution.state target ≠ .running) :
    ∀ target ∈ finalizer.finalizes, after.state target ≠ .running := by
  intro target finalizes running
  rcases valid.running_cases step running with ⟨node, given, rfl⟩ | earlier
  · exact apart node given finalizes
  · exact rested target finalizes earlier

theorem TurnedAway.rests (turned : TurnedAway initial finalizer handed execution)
    (valid : initial.Valid) :
    ∀ target ∈ finalizer.finalizes, execution.state target ≠ .running := by
  induction turned with
  | passed earlier passes apart =>
      cases passes with
      | intro selected _ _ rested =>
          exact (earlier.sound valid).1.rests_step (.select selected) apart rested
  | call turned step apart ih => exact (turned.runs.sound valid).1.rests_step step apart ih

theorem Valid.expects_step (valid : execution.Valid) (step : execution.Step node? after)
    (scheduled : finalizer ∈ execution.schedule.nodes)
    (waiting : after.state finalizer.item = .waiting) (expects : execution.Expects finalizer) :
    after.Expects finalizer ∨ execution.PassesOver finalizer node? after := by
  by_cases started : ∃ target ∈ finalizer.finalizes, execution.state target = .running
  · left
    obtain ⟨target, finalizes, running⟩ := started
    by_cases runs : after.state target = .running
    · exact .inr ⟨target, finalizes, runs⟩
    · -- The target ends in this call, which puts the finalizer in line.
      exact .inl (valid.mem_preferred_of_ended step running runs scheduled finalizes)
  · have listed : finalizer ∈ execution.preferred := expects.resolve_right started
    cases step with
    | @select locks _ _ _ selected =>
        cases startable : execution.canStart locks finalizer with
        | true => exact .inl (.inl (valid.mem_preferred_select selected listed startable waiting))
        | false =>
            refine .inr (.intro selected listed startable fun target finalizes running => ?_)
            exact started ⟨target, finalizes, running⟩
    | finish finished =>
        left
        rcases valid.finish?_ends finished with rfl | ⟨ended, _, line, _⟩
        · exact expects
        · exact .inl (line ▸ List.mem_append_left _ listed)
    | close => exact .inl (.inl ((preferred_close execution).symm ▸ listed))

/-- While a finalizer waits, nothing that it finalizes was handed out, or it is in line or expected
there, or it was turned away. -/
theorem Runs.expects (runs : Runs initial handed execution) (valid : initial.Valid)
    (scheduled : finalizer ∈ initial.schedule.nodes)
    (waiting : execution.state finalizer.item = .waiting) :
    (∀ node ∈ handed, node.item ∉ finalizer.finalizes) ∨ execution.Expects finalizer ∨
      TurnedAway initial finalizer handed execution := by
  induction runs with
  | start => exact .inl fun node absent => absurd absent List.not_mem_nil
  | @call handed before after node? earlier step ih =>
      obtain ⟨beforeValid, schedule, _⟩ := earlier.sound valid
      obtain ⟨_, _, moves⟩ := beforeValid.step step
      have present : finalizer ∈ before.schedule.nodes := schedule ▸ scheduled
      have waited := (moves finalizer.item).eq_waiting waiting
      by_cases expected : after.Expects finalizer
      · exact .inr (.inl expected)
      · -- A target that is handed out runs, and the finalizer would be expected in line.
        have apart : ∀ node ∈ node?, node.item ∉ finalizer.finalizes := by
          rintro node rfl finalizes
          exact expected (.inr ⟨node.item, finalizes, step.running beforeValid⟩)
        rcases ih waited with none | expects | turned
        · left
          intro node given
          rcases List.mem_append.mp given with before | now
          · exact none node before
          · exact apart node (Option.mem_toList.mp now)
        · rcases beforeValid.expects_step step present waiting expects with still | passes
          · exact absurd still expected
          · exact .inr (.inr (.passed earlier passes apart))
        · exact .inr (.inr (.call turned step apart))

/-- A finalizer could start, and of what it waits for, all was finalized by it and handed out. -/
structure FollowsOnly (execution : Execution) (finalizer : ScheduledNode)
    (handed : List ScheduledNode) : Prop where
  waiting : execution.state finalizer.item = .waiting
  ready : execution.isReady finalizer = true
  listed : ∀ waited ∈ finalizer.predecessors,
    waited.1 ∈ finalizer.finalizes ∧ waited.1 ∈ handed.map (·.item)

theorem FollowsOnly.of_step (follows : after.FollowsOnly finalizer (handed ++ node?.toList))
    (valid : before.Valid) (started : ∀ node ∈ handed, before.state node.item ≠ .waiting)
    (step : before.Step node? after) (apart : ∀ node ∈ node?, node.item ∉ finalizer.finalizes)
    (rested : ∀ target ∈ finalizer.finalizes, before.state target ≠ .running) :
    before.FollowsOnly finalizer handed := by
  have moves := (valid.step step).2.2
  have listed : ∀ waited ∈ finalizer.predecessors,
      waited.1 ∈ finalizer.finalizes ∧ waited.1 ∈ handed.map (·.item) := by
    intro waited waits
    obtain ⟨finalizes, given⟩ := follows.listed waited waits
    rw [List.map_append, List.mem_append] at given
    refine ⟨finalizes, given.resolve_right fun now => ?_⟩
    obtain ⟨node, chosen, same⟩ := List.mem_map.mp now
    exact apart node (Option.mem_toList.mp chosen) (same ▸ finalizes)
  refine ⟨(moves finalizer.item).eq_waiting follows.waiting, ?_, listed⟩
  refine isReady_iff.mpr fun waited waits => ?_
  obtain ⟨finalizes, given⟩ := listed waited waits
  obtain ⟨node, earlier, same⟩ := List.mem_map.mp given
  have terminal := NodeState.isTerminal_of_ne (same ▸ started node earlier)
    (rested waited.1 finalizes)
  rw [← (moves waited.1).eq_of_isTerminal terminal]
  exact isReady_iff.mp follows.ready waited waits

/-- A finalizer is turned away because of its locks, or because it waits for more than what it
finalizes. -/
theorem TurnedAway.locks_ne_nil (turned : TurnedAway initial finalizer handed execution)
    (valid : initial.Valid) (follows : execution.FollowsOnly finalizer handed) :
    finalizer.locks ≠ [] := by
  intro unlocked
  induction turned with
  | passed earlier passes apart =>
      obtain ⟨beforeValid, _, started⟩ := earlier.sound valid
      cases passes with
      | @intro locks _ _ _ selected _ blocked rested =>
          have before := follows.of_step beforeValid started (.select selected) apart rested
          have free : locks.areFreeFor finalizer.item finalizer.locks = true := by
            rw [unlocked]
            rfl
          rw [canStart_iff.mpr ⟨before.waiting, before.ready, free⟩] at blocked
          cases blocked
  | call turned step apart ih =>
      obtain ⟨beforeValid, _, started⟩ := turned.runs.sound valid
      exact ih (follows.of_step beforeValid started step apart (turned.rests valid))

/-! ## What is executed without being handed out -/

/-- Unless it is handed out, what has work goes on waiting or is left out. -/
theorem Valid.state_of_isWork (valid : execution.Valid) (step : execution.Step node? after)
    (member : node ∈ execution.schedule.nodes) (work : node.isWork = true)
    (waiting : execution.state node.item = .waiting) :
    after.state node.item = .waiting ∨ (after.state node.item).isLeftOut = true ∨
      node ∈ node? := by
  cases step with
  | select selected =>
      cases selects selected with
      | finished => exact .inl waiting
      | waiting => exact .inl waiting
      | @ready chosen _ listed =>
          rw [state_record]
          split
          next same =>
            have scheduled := listed.elim (valid.preferred ·) id
            exact .inr (.inr (valid.wellFormed.node_unique scheduled member same.symm ▸ rfl))
          next => exact .inl waiting
  | @finish _ _ _ outcome _ _ finished =>
      rcases finish?_cases finished with rfl | ⟨ended, _, _, running, rfl⟩
      · exact .inl waiting
      · have different : node.item ≠ ended.item := by
          intro same
          rw [same, running] at waiting
          cases waiting
        have recorded :
            (execution.record ended.item (.ofOutcome outcome)).state node.item = .waiting := by
          rw [state_record, if_neg different, waiting]
        rcases @state_settleAfter_of_isWork (execution.record ended.item (.ofOutcome outcome))
          node valid.wellFormed member work ended.item outcome with still | leftOut
        · exact .inl (still.trans recorded)
        · exact .inr (.inl leftOut)
  | close =>
      rcases execution.state_close node.item with same | ⟨_, leftOut⟩
      · exact .inl (same.trans waiting)
      · exact .inr (.inl (leftOut ▸ rfl))

theorem Runs.mem_handed (runs : Runs initial handed execution) (valid : initial.Valid)
    (fresh : initial.state node.item = .waiting ∨ (initial.state node.item).isLeftOut = true)
    (member : node ∈ initial.schedule.nodes) (work : node.isWork = true)
    (executed : (execution.state node.item).isExecuted = true) : node ∈ handed := by
  suffices waits : execution.state node.item = .waiting ∨
      (execution.state node.item).isLeftOut = true ∨ node ∈ handed by
    rcases waits with waiting | leftOut | given
    · rw [waiting] at executed
      cases executed
    · rw [NodeState.isLeftOut_of_isExecuted executed] at leftOut
      cases leftOut
    · exact given
  clear executed
  induction runs with
  | start => exact fresh.imp_right .inl
  | call earlier step ih =>
      obtain ⟨beforeValid, schedule, _⟩ := earlier.sound valid
      rcases ih with waiting | leftOut | given
      · rcases beforeValid.state_of_isWork step (schedule ▸ member) work waiting with
          still | leftOut | chosen
        · exact .inl still
        · exact .inr (.inl leftOut)
        · exact .inr (.inr (List.mem_append_right _ (Option.mem_toList.mpr chosen)))
      · have moves := (beforeValid.step step).2.2 node.item
        rw [moves.eq_of_isTerminal (NodeState.isTerminal_of_isLeftOut leftOut)]
        exact .inr (.inl leftOut)
      · exact .inr (.inr (List.mem_append_left _ given))

/-! ## What is handed out first -/

theorem Valid.exists_select_ready (valid : execution.Valid)
    (member : finalizer ∈ execution.schedule.nodes)
    (startable : execution.canStart locks finalizer = true) :
    ∃ node after table, execution.select locks = (.ready node, after, table) := by
  generalize selected : execution.select locks = outcome
  obtain ⟨selection, after, table⟩ := outcome
  cases selection with
  | ready node => exact ⟨node, after, table, rfl⟩
  | waiting =>
      rw [valid.canStart_eq_false selected member] at startable
      cases startable
  | finished =>
      cases selects selected with
      | finished completed =>
          have terminal := valid.isTerminal_of_pending completed member
          rw [(canStart_iff.mp startable).1] at terminal
          cases terminal

/-- If a finalizer can start and the selection takes nothing from the line, then nothing that the
finalizer finalizes was handed out, or it was turned away. -/
theorem Runs.selects (runs : Runs initial handed execution) (valid : initial.Valid)
    (due : initial.LineIsDue) (member : finalizer ∈ initial.schedule.nodes)
    (startable : execution.canStart locks finalizer = true)
    (selected : execution.select locks = (.ready node, after, table)) :
    (∃ other ∈ node.finalizes, (execution.state other).isExecuted = true) ∨
      execution.schedule.nodes.find? (execution.canStart locks) = some node ∧
        ((∀ node ∈ handed, node.item ∉ finalizer.finalizes) ∨
          TurnedAway initial finalizer handed execution) := by
  obtain ⟨current, schedule, _⟩ := runs.sound valid
  obtain ⟨waiting, ready, _⟩ := canStart_iff.mp startable
  have chosen := (current.select_ready selected).1
  cases first : execution.preferred.find? (execution.canStart locks) with
  | some other =>
      rw [first] at chosen
      cases chosen
      exact .inl (runs.lineIsDue valid due _ (List.mem_of_find?_eq_some first))
  | none =>
      rw [first] at chosen
      refine .inr ⟨chosen, ?_⟩
      rcases runs.expects valid member waiting with
        unhanded | (listed | ⟨target, finalizes, running⟩) | turned
      · exact .inl unhanded
      · exact absurd startable (List.find?_eq_none.mp first finalizer listed)
      · have terminal := current.isTerminal_of_finalizes (schedule ▸ member) ready finalizes
        rw [running] at terminal
        cases terminal
      · exact .inr turned

/-- Whenever a finalizer of an executed item can start, a selection hands out a finalizer of some
executed item, or else the first node of the schedule that can start. The latter happens only
if the item is a marker or was executed before, or if the finalizer was turned away. A finalizer
that has no locks and waits only for what it finalizes, all of it handed out, comes first. -/
theorem selects_finalizer {plan : Plan} (reachable : plan.Reachable) {schedule : Schedule}
    (finalized : plan.finalize.result = .ok schedule) (name : String) (policy : FailurePolicy)
    (handlers : List String) (runs : Runs (start name schedule policy handlers) handed execution)
    {target finalizer : ScheduledNode} (targetMember : target ∈ schedule.nodes)
    (finalizerMember : finalizer ∈ schedule.nodes) (finalizes : target.item ∈ finalizer.finalizes)
    (executed : (execution.state target.item).isExecuted = true)
    (startable : execution.canStart locks finalizer = true) :
    ∃ node after table, execution.select locks = (.ready node, after, table) ∧
      ((∃ other ∈ node.finalizes, (execution.state other).isExecuted = true) ∨
        schedule.nodes.find? (execution.canStart locks) = some node ∧
          (target.isWork = false ∨
            TurnedAway (start name schedule policy handlers) finalizer handed execution)) ∧
      (finalizer.locks = [] →
        (∀ waited ∈ finalizer.predecessors,
          waited.1 ∈ finalizer.finalizes ∧ waited.1 ∈ handed.map (·.item)) →
        ∃ other ∈ node.finalizes, (execution.state other).isExecuted = true) := by
  have wellFormed := reachable.wellFormed_of_finalize finalized
  obtain ⟨startValid, startSchedule, _⟩ := valid_start wellFormed name policy handlers
  have fresh := state_start_of_isWork wellFormed name policy handlers targetMember
  have nothing : (start name schedule policy handlers).LineIsDue := by
    intro node listed
    rw [preferred_start] at listed
    cases listed
  generalize start name schedule policy handlers = initial at *
  subst startSchedule
  obtain ⟨valid, sameSchedule, _⟩ := runs.sound startValid
  have scheduled := sameSchedule.symm ▸ finalizerMember
  obtain ⟨node, after, table, selected⟩ := valid.exists_select_ready scheduled startable
  have selects := runs.selects startValid nothing finalizerMember startable selected
  rw [sameSchedule] at selects
  refine ⟨node, after, table, selected, ?_, fun unlocked only => ?_⟩
  · refine selects.imp_right fun ⟨chosen, reason⟩ => ⟨chosen, reason.imp_left fun unhanded => ?_⟩
    by_contra work
    rw [Bool.not_eq_false] at work
    have given := runs.mem_handed startValid (fresh work) targetMember work executed
    exact unhanded target given finalizes
  · rcases selects with due | ⟨_, unhanded | turned⟩
    · exact due
    · obtain ⟨kind, waits⟩ :=
        valid.wellFormed.targets finalizer scheduled target.item finalizes
      obtain ⟨earlier, given, same⟩ := List.mem_map.mp (only _ waits).2
      exact absurd (same ▸ finalizes) (unhanded earlier given)
    · obtain ⟨waiting, ready, _⟩ := canStart_iff.mp startable
      exact absurd unlocked (turned.locks_ne_nil startValid ⟨waiting, ready, only⟩)

end Execution

/-! ## An example -/

/-- A plan of `download` and `install`, which both need the network, and of `package`, which is
finalized by `upload`. The upload needs the network too. -/
def Plan.release : Plan :=
  (Plan.seed { name := "build" }
    [{ item := .task "download", locks := ["net"] }, { item := .task "install", locks := ["net"] },
      { item := .task "package", finalizers := [3] },
      { item := .task "upload", locks := ["net"] }]).plan

theorem Plan.reachable_release : Plan.release.Reachable := .seed _ (.new "build")

def Schedule.release : Schedule :=
  .ofNodes
    [{ item := .task "download", locks := ["net"], isEntry := true },
      { item := .task "install", locks := ["net"], isEntry := true },
      { item := .task "package", isEntry := true },
      { item := .task "upload", predecessors := [(.task "package", .finalizes)],
        finalizes := [.task "package"], locks := ["net"], isEntry := true }]
    []

theorem Plan.finalize_release : Plan.release.finalize.result = .ok .release := rfl

namespace Execution

def releaseStarted : Execution :=
  (((start "build" .release .stop []).select {}).2.1.select
    { held := [("net", .task "download")] }).2.1

/-- The package is ready, and `upload` was asked for while the download had the network. -/
def releaseBlocked : Execution :=
  ((releaseStarted.finishNode { held := [("net", .task "download")] } Schedule.release.nodes[2]
    .success).1.select { held := [("net", .task "download")] }).2.1

def releaseFreed : Execution :=
  (releaseBlocked.finishNode { held := [("net", .task "download")] } Schedule.release.nodes[0]
    .success).1

theorem select_releaseFreed :
    releaseFreed.select {} = (.ready Schedule.release.nodes[1], (releaseFreed.select {}).2.1,
      { held := [("net", .task "install")] }) := rfl

theorem alone_releaseFreed : Alone (start "build" .release .stop []) releaseFreed {} := by
  let held : LockTable := { held := [("net", .task "download")] }
  have first : (start "build" .release .stop []).select {} = (.ready Schedule.release.nodes[0],
      ((start "build" .release .stop []).select {}).2.1, held) := rfl
  have second : ((start "build" .release .stop []).select {}).2.1.select held =
      (.ready Schedule.release.nodes[2], releaseStarted, held) := rfl
  have packaged : releaseStarted.finish? held (.task "package") .success = some
      ((releaseStarted.finishNode held Schedule.release.nodes[2] .success).1, held, []) := rfl
  have blocked : (releaseStarted.finishNode held Schedule.release.nodes[2] .success).1.select held =
      (.waiting, releaseBlocked, held) := rfl
  have freed : releaseBlocked.finish? held (.task "download") .success =
      some (releaseFreed, {}, []) := rfl
  exact .finish (.select (.finish (.select (.select .start first) second) packaged) blocked) freed

/-- `upload` was turned away while `download` had the network. -/
theorem selects_finalizer_release :
    Plan.release.finalize.result = .ok .release ∧
      releaseFreed.state (.task "package") = .succeeded ∧
      releaseFreed.canStart {} Schedule.release.nodes[3] = true ∧ ∃ handed,
        TurnedAway (start "build" .release .stop []) Schedule.release.nodes[3] handed
          releaseFreed := by
  have executed : (releaseFreed.state (.task "package")).isExecuted = true := rfl
  have startable : releaseFreed.canStart {} Schedule.release.nodes[3] = true := rfl
  have target : Schedule.release.nodes[2] ∈ Schedule.release.nodes := by decide
  have finalizer : Schedule.release.nodes[3] ∈ Schedule.release.nodes := by decide
  obtain ⟨handed, runs⟩ := alone_releaseFreed.exists_runs
  obtain ⟨node, after, table, selected, either, _⟩ :=
    selects_finalizer Plan.reachable_release Plan.finalize_release "build" .stop [] runs target
      finalizer (by decide) executed startable
  rw [select_releaseFreed] at selected
  cases selected
  refine ⟨Plan.finalize_release, rfl, startable, handed, ?_⟩
  rcases either with ⟨other, absent, _⟩ | ⟨_, idle | turned⟩
  · cases absent
  · cases idle
  · exact turned

/-- `upload` can start and finalizes `package`, which has succeeded, and yet `install` is handed out,
which finalizes nothing. -/
theorem not_selects_finalizer_release :
    Plan.release.Reachable ∧ Plan.release.finalize.result = .ok .release ∧
      ∃ execution locks, Alone (start "build" .release .stop []) execution locks ∧
        execution.isClosed = false ∧
        (∃ finalizer ∈ Schedule.release.nodes, execution.canStart locks finalizer = true ∧
          ∃ target ∈ finalizer.finalizes, execution.state target = .succeeded) ∧
        ∃ node after table, execution.select locks = (.ready node, after, table) ∧
          ∀ target ∈ node.finalizes, (execution.state target).isExecuted = false := by
  have finalizer : Schedule.release.nodes[3] ∈ Schedule.release.nodes := by decide
  refine ⟨Plan.reachable_release, Plan.finalize_release, releaseFreed, {}, alone_releaseFreed, rfl,
    ⟨_, finalizer, rfl, .task "package", by decide, rfl⟩, _, _, _, select_releaseFreed, ?_⟩
  exact fun target absent => absurd absent List.not_mem_nil

end Execution

end TaskPlanner
