import TaskPlanner.Proofs.Execution.Causes
import TaskPlanner.Proofs.Execution.HandOut

/-! Which finalizers of executed items run. An execution that stops early decides about the waiting
finalizers once, in the call that stops it: it keeps those of which a target was executed by then or
is running. A finalizer whose targets are finalizers themselves may come too late for that. -/

set_option autoImplicit false

namespace TaskPlanner

namespace Execution

variable {initial execution before after stopped : Execution} {node : ScheduledNode}
  {node? : Option ScheduledNode} {handed : List ScheduledNode} {locks table : LockTable}

/-! ## One call -/

/-- How a waiting node can come to start or to end in one call, unless the call closes the
execution. -/
inductive Leaves (before after : Execution) (node : ScheduledNode) : Prop where
  | performs : (after.state node.item).isLeftOut = false → after.isReady node = true →
      Leaves before after node
  | barred : (after.state node.item).isLeftOut = true → after.IsBarred node →
      Leaves before after node
  | stops : (after.state node.item).isLeftOut = true → before.isAborted = false →
      after.isAborted = true → after.finalizesExecuted node = false → Leaves before after node

/-- The nodes that an aborted execution still waits for finalize something that was executed. -/
def KeepsFinalizers (execution : Execution) : Prop :=
  ∀ node ∈ execution.schedule.nodes, execution.state node.item = .waiting →
    execution.isAborted = true → execution.finalizesExecuted node = true

theorem Valid.keepsFinalizers (valid : execution.Valid) : execution.KeepsFinalizers := by
  intro node member waiting aborted
  have unsettled := valid.examined.unsettled node member waiting List.not_mem_nil
  exact (settled?_eq_none_iff.mp unsettled).1 aborted

theorem leaves_reexamine (wellFormed : execution.schedule.WellFormed)
    (keeps : execution.KeepsFinalizers) {nodes : List ScheduledNode}
    (scheduled : nodes ⊆ execution.schedule.nodes) (member : node ∈ execution.schedule.nodes)
    (waiting : execution.state node.item = .waiting)
    (left : (execution.reexamine nodes).state node.item ≠ .waiting) :
    Leaves execution (execution.reexamine nodes) node := by
  obtain ⟨middle, first, second, settled⟩ :=
    exists_settled?_of_propagate wellFormed scheduled member waiting left
  rcases settled?_cases settled with ⟨aborted, unexecuted, _⟩ | ⟨barred, leftOut⟩ | ⟨same, ready⟩
  · have executed := keeps node member waiting (first.isAborted ▸ aborted)
    rw [finalizesExecuted_of_moves first.moves executed] at unexecuted
    cases unexecuted
  · exact .barred leftOut (isBarred_of_moves second.moves barred)
  · refine .performs ?_ (isReady_of_moves second.moves ready)
    unfold reexamine
    rw [same]
    rfl

theorem leaves_settleAfter (wellFormed : execution.schedule.WellFormed)
    (keeps : execution.KeepsFinalizers) {item : WorkItem} {outcome : TaskOutcome}
    (member : node ∈ execution.schedule.nodes) (waiting : execution.state node.item = .waiting)
    (left : (execution.settleAfter item outcome).state node.item ≠ .waiting) :
    Leaves execution (execution.settleAfter item outcome) node := by
  unfold settleAfter at left ⊢
  split at left
  next stops =>
    rw [if_pos stops]
    simp only [Bool.and_eq_true, Bool.not_eq_true', decide_eq_true_eq] at stops
    have exact' : (({ execution with isAborted := true } : Execution).reexamine
        execution.schedule.nodes).IsSettled node :=
      isSettled_reexamine { execution with isAborted := true } wellFormed node member waiting
    rcases settled?_cases (exact'.settled?_eq_some left) with
      ⟨aborted, unexecuted, same⟩ | ⟨barred, leftOut⟩ | ⟨same, ready⟩
    · exact .stops (by rw [same]; rfl) stops.2 aborted unexecuted
    · exact .barred leftOut barred
    · exact .performs (by rw [same]; rfl) ready
  next continues =>
    rw [if_neg continues]
    exact leaves_reexamine wellFormed keeps List.filter_sublist.subset member waiting left

theorem moves_record_ofOutcome (running : execution.state node.item = .running)
    (outcome : TaskOutcome) (item : WorkItem) :
    NodeState.Moves (execution.state item)
      ((execution.record node.item (.ofOutcome outcome)).state item) := by
  rw [state_record]
  split
  next same =>
    rw [same, running]
    exact .ends outcome
  next => exact .stays _

theorem settleAfter_frame (execution : Execution) (item : WorkItem) (outcome : TaskOutcome) :
    (execution.settleAfter item outcome).schedule = execution.schedule ∧
      (execution.settleAfter item outcome).preferred = execution.preferred := by
  unfold settleAfter
  split
  · exact ⟨(settles_propagate _ _ _).schedule, (settles_propagate _ _ _).preferred⟩
  · exact ⟨(settles_propagate _ _ _).schedule, (settles_propagate _ _ _).preferred⟩

/-- The outcome of a running node ends it, settles what that affects, and puts the finalizers of the
node in line. -/
theorem finishNode_of_running (running : execution.state node.item = .running)
    (outcome : TaskOutcome) :
    execution.finishNode locks node outcome =
      ({ (execution.record node.item (.ofOutcome outcome)).settleAfter node.item outcome with
          preferred := execution.preferred ++ execution.finalizersOf node.item },
        locks.release node.item node.locks, execution.notifications node.item outcome) := by
  obtain ⟨schedule, preferred⟩ :=
    settleAfter_frame (execution.record node.item (.ofOutcome outcome)) node.item outcome
  unfold finishNode finalizersOf
  rw [if_neg (not_not.mpr running)]
  dsimp only
  rw [schedule, preferred]
  rfl

/-- The report of an outcome does nothing, or ends a running node. -/
theorem finish?_cases {item : WorkItem} {outcome : TaskOutcome} {notifications : List Notification}
    (finished : execution.finish? locks item outcome = some (after, table, notifications)) :
    after = execution ∨ ∃ node ∈ execution.schedule.nodes, node.item = item ∧
      execution.state node.item = .running ∧ after =
        { (execution.record node.item (.ofOutcome outcome)).settleAfter node.item outcome with
          preferred := execution.preferred ++ execution.finalizersOf node.item } := by
  obtain ⟨node, member, named, finishes⟩ := finishNode_of_finish? finished
  by_cases running : execution.state node.item = .running
  · rw [finishNode_of_running running] at finishes
    cases finishes
    exact .inr ⟨node, member, named, running, rfl⟩
  · unfold finishNode at finishes
    rw [if_pos running] at finishes
    cases finishes
    exact .inl rfl

/-- Unless a call closes the execution, a waiting node starts or ends for one of three reasons. -/
theorem Valid.leaves (valid : execution.Valid) (step : execution.Step node? after)
    (unclosed : after.isClosed = false) (member : node ∈ execution.schedule.nodes)
    (waiting : execution.state node.item = .waiting) (left : after.state node.item ≠ .waiting) :
    Leaves execution after node := by
  have moves := (valid.step step).2.2
  cases step with
  | close => simp [isClosed_close] at unclosed
  | select selected =>
      cases selects selected with
      | finished => exact absurd waiting left
      | waiting => exact absurd waiting left
      | @ready chosen preferred listed startable =>
          rw [state_record] at left
          split at left
          next same =>
            have scheduled : chosen ∈ execution.schedule.nodes := listed.elim (valid.preferred ·) id
            cases valid.wellFormed.node_unique member scheduled same
            refine .performs ?_ (isReady_of_moves moves (canStart_iff.mp startable).2.1)
            rw [state_record, if_pos rfl]
            rfl
          next => exact absurd waiting left
  | @finish _ _ _ outcome _ _ finished =>
      rcases finish?_cases finished with rfl | ⟨ended, endedMember, _, running, rfl⟩
      · exact absurd waiting left
      · have recordMoves := moves_record_ofOutcome running outcome
        have keeps : (execution.record ended.item (.ofOutcome outcome)).KeepsFinalizers := by
          intro other present still aborted
          exact finalizesExecuted_of_moves recordMoves
            (valid.keepsFinalizers other present ((recordMoves _).eq_waiting still) aborted)
        have recorded :
            (execution.record ended.item (.ofOutcome outcome)).state node.item = .waiting := by
          rw [state_record, if_neg]
          · exact waiting
          · intro same
            rw [same, running] at waiting
            cases waiting
        have wellFormed : (execution.record ended.item (.ofOutcome outcome)).schedule.WellFormed :=
          valid.wellFormed
        cases leaves_settleAfter wellFormed keeps member recorded left with
        | performs performed ready => exact .performs performed ready
        | barred leftOut barred => exact .barred leftOut barred
        | stops leftOut unaborted aborted unexecuted =>
            exact .stops leftOut unaborted aborted unexecuted

theorem reexamine_keeps (execution : Execution) (nodes : List ScheduledNode) :
    (execution.reexamine nodes).isClosed = execution.isClosed ∧
      (execution.reexamine nodes).policy = execution.policy := by
  refine propagate_keeps
    (fun other => other.isClosed = execution.isClosed ∧ other.policy = execution.policy)
    (fun _ _ _ => id) (fun other item same => ?_) ⟨rfl, rfl⟩ _ _
  unfold markReady
  split <;> exact same

/-- A call that does not close an execution keeps the policy, and aborts only if the policy
says so. -/
theorem Step.keeps (step : execution.Step node? after) (unclosed : after.isClosed = false) :
    execution.isClosed = false ∧ after.policy = execution.policy ∧
      (after.isAborted = true → execution.isAborted = true ∨ execution.policy = .stop) := by
  cases step with
  | close => simp [isClosed_close] at unclosed
  | select selected =>
      cases selects selected with
      | finished => exact ⟨unclosed, rfl, .inl⟩
      | waiting => exact ⟨unclosed, rfl, .inl⟩
      | ready => exact ⟨unclosed, rfl, .inl⟩
  | @finish _ _ _ outcome _ _ finished =>
      rcases finish?_cases finished with rfl | ⟨ended, _, _, _, rfl⟩
      · exact ⟨unclosed, rfl, .inl⟩
      · generalize recording : execution.record ended.item (.ofOutcome outcome) = recorded at *
        have frame : recorded.isClosed = execution.isClosed ∧
            recorded.policy = execution.policy ∧ recorded.isAborted = execution.isAborted := by
          subst recording
          exact ⟨rfl, rfl, rfl⟩
        unfold settleAfter at unclosed ⊢
        dsimp only at unclosed ⊢
        split at unclosed
        next stops =>
          rw [if_pos stops]
          simp only [Bool.and_eq_true, decide_eq_true_eq] at stops
          obtain ⟨closed, policy⟩ := reexamine_keeps { recorded with isAborted := true }
            recorded.schedule.nodes
          refine ⟨?_, policy.trans frame.2.1, fun _ => .inr (frame.2.1 ▸ stops.1.2)⟩
          rw [← frame.1, ← unclosed]
          exact closed.symm
        next continues =>
          rw [if_neg continues]
          obtain ⟨closed, policy⟩ := reexamine_keeps recorded (recorded.dependents ended.item)
          have aborted : (recorded.reexamine (recorded.dependents ended.item)).isAborted =
              recorded.isAborted := (settles_propagate _ _ _).isAborted
          refine ⟨?_, policy.trans frame.2.1, fun after => .inl ?_⟩
          · rw [← frame.1, ← unclosed]
            exact closed.symm
          · rw [← frame.2.2, ← aborted]
            exact after

/-! ## Runs -/

/-- A call of the run stopped the execution early, and left `stopped`. -/
def Halts (initial stopped execution : Execution) : Prop :=
  ∃ (earlier : List ScheduledNode) (before : Execution) (node? : Option ScheduledNode)
    (later : List ScheduledNode), Runs initial earlier before ∧ before.isAborted = false ∧
      before.Step node? stopped ∧ stopped.isAborted = true ∧ Runs stopped later execution

theorem Halts.call (halts : Halts initial stopped before) (step : before.Step node? after) :
    Halts initial stopped after := by
  obtain ⟨earlier, base, first?, later, runs, running, stops, aborted, rest⟩ := halts
  exact ⟨earlier, base, first?, _, runs, running, stops, aborted, .call rest step⟩

/-- What was not left out was let by its predecessors, and what was left out had a reason. -/
structure Accounted (initial execution : Execution) : Prop where
  performed : ∀ node ∈ execution.schedule.nodes, execution.state node.item ≠ .waiting →
    (execution.state node.item).isLeftOut = false → execution.isReady node = true
  leftOut : ∀ node ∈ execution.schedule.nodes, (execution.state node.item).isLeftOut = true →
    execution.IsBarred node ∨
      ∃ stopped, Halts initial stopped execution ∧ stopped.finalizesExecuted node = false

theorem accounted_start {schedule : Schedule} (wellFormed : schedule.WellFormed) (name : String)
    (policy : FailurePolicy) (handlers : List String) :
    Accounted (start name schedule policy handlers) (start name schedule policy handlers) := by
  let fresh : Execution := { name, schedule, policy, handlers, pending := schedule.nodes.length }
  have frame : Settles fresh (fresh.reexamine schedule.nodes) := settles_propagate _ _ _
  have settled : ∀ node ∈ schedule.nodes,
      (fresh.reexamine schedule.nodes).state node.item ≠ .waiting →
      (fresh.reexamine schedule.nodes).settled? node =
        some ((fresh.reexamine schedule.nodes).state node.item) :=
    fun node member => (isSettled_reexamine fresh wellFormed node member rfl).settled?_eq_some
  have running : (fresh.reexamine schedule.nodes).isAborted = false := frame.isAborted
  unfold start
  constructor
  · intro node member left performed
    rw [frame.schedule] at member
    rcases settled?_cases (settled node member left) with ⟨aborted, _⟩ | ⟨_, leftOut⟩ | ⟨_, ready⟩
    · rw [running] at aborted
      cases aborted
    · rw [performed] at leftOut
      cases leftOut
    · exact ready
  · intro node member leftOut
    rw [frame.schedule] at member
    have left :=
      NodeState.ne_waiting_of_isTerminal (NodeState.isTerminal_of_isLeftOut leftOut)
    rcases settled?_cases (settled node member left) with ⟨aborted, _⟩ | ⟨barred, _⟩ | ⟨same, _⟩
    · rw [running] at aborted
      cases aborted
    · exact .inl barred
    · rw [same] at leftOut
      cases leftOut

theorem Accounted.call (accounted : Accounted initial before) (valid : before.Valid)
    (runs : Runs initial handed before) (step : before.Step node? after)
    (unclosed : after.isClosed = false) : Accounted initial after := by
  obtain ⟨_, schedule, moves⟩ := valid.step step
  constructor
  · intro node member left performed
    rw [schedule] at member
    by_cases waiting : before.state node.item = .waiting
    · cases valid.leaves step unclosed member waiting left with
      | performs _ ready => exact ready
      | barred leftOut =>
          rw [performed] at leftOut
          cases leftOut
      | stops leftOut =>
          rw [performed] at leftOut
          cases leftOut
    · refine isReady_of_moves moves (accounted.performed node member waiting ?_)
      by_contra leftOut
      rw [Bool.not_eq_false] at leftOut
      have terminal := NodeState.isTerminal_of_isLeftOut leftOut
      rw [(moves node.item).eq_of_isTerminal terminal, leftOut] at performed
      cases performed
  · intro node member leftOut
    rw [schedule] at member
    by_cases waiting : before.state node.item = .waiting
    · have left : after.state node.item ≠ .waiting := by
        intro still
        rw [still] at leftOut
        cases leftOut
      cases valid.leaves step unclosed member waiting left with
      | performs performed =>
          rw [performed] at leftOut
          cases leftOut
      | barred _ barred => exact .inl barred
      | stops _ running aborted unexecuted =>
          exact .inr ⟨after, ⟨_, _, _, _, runs, running, step, aborted, .start⟩, unexecuted⟩
    · rw [(moves node.item).eq_of_isLeftOut waiting leftOut] at leftOut
      rcases accounted.leftOut node member leftOut with barred | ⟨stopped, halts, unexecuted⟩
      · exact .inl (isBarred_of_moves moves barred)
      · exact .inr ⟨stopped, halts.call step, unexecuted⟩

theorem Runs.accounted (runs : Runs initial handed execution) (valid : initial.Valid)
    (accounted : Accounted initial initial) (unclosed : execution.isClosed = false) :
    Accounted initial execution := by
  induction runs with
  | start => exact accounted
  | call earlier step ih =>
      have before := ih (step.keeps unclosed).1
      exact before.call (earlier.sound valid).1 earlier step unclosed

theorem Runs.keeps (runs : Runs initial handed execution) (unclosed : execution.isClosed = false) :
    initial.isClosed = false ∧ execution.policy = initial.policy := by
  induction runs with
  | start => exact ⟨unclosed, rfl⟩
  | call _ step ih =>
      obtain ⟨before, policy, _⟩ := step.keeps unclosed
      exact ⟨(ih before).1, policy.trans (ih before).2⟩

/-- What no change of state undoes stays true of an item. -/
theorem Runs.state_keeps (runs : Runs initial handed execution) (valid : initial.Valid)
    (property : NodeState → Prop)
    (keeps : ∀ {before after}, NodeState.Moves before after → property before → property after)
    {item : WorkItem} (holds : property (initial.state item)) : property (execution.state item) := by
  induction runs with
  | start => exact holds
  | call earlier step ih => exact keeps (((earlier.sound valid).1.step step).2.2 item) ih

theorem Runs.state_of_isTerminal (runs : Runs initial handed execution) (valid : initial.Valid)
    {item : WorkItem} (terminal : (initial.state item).isTerminal = true) :
    execution.state item = initial.state item := by
  refine runs.state_keeps valid (· = initial.state item) (fun moves same => ?_) rfl
  rw [moves.eq_of_isTerminal (same ▸ terminal), same]

theorem Runs.ne_waiting (runs : Runs initial handed execution) (valid : initial.Valid)
    {item : WorkItem} (started : initial.state item ≠ .waiting) : execution.state item ≠ .waiting :=
  runs.state_keeps valid (· ≠ .waiting) (fun moves => moves.ne_waiting) started

theorem Halts.sound (valid : initial.Valid) (halts : Halts initial stopped execution) :
    stopped.Valid ∧ stopped.schedule = initial.schedule ∧ stopped.isAborted = true ∧
      (∃ handed, Runs initial handed stopped) ∧ ∃ handed, Runs stopped handed execution := by
  obtain ⟨earlier, base, node?, later, runs, _, step, aborted, rest⟩ := halts
  have whole := Runs.call runs step
  obtain ⟨stoppedValid, schedule, _⟩ := whole.sound valid
  exact ⟨stoppedValid, schedule, aborted, ⟨_, whole⟩, ⟨_, rest⟩⟩

/-! ## Completed runs -/

/-- When an execution is stopped, an item that will have been executed in the end and finalizes
nothing has started. -/
theorem Halts.finalizesExecuted (valid : initial.Valid) (halts : Halts initial stopped execution)
    {target finalizer : ScheduledNode} (member : target ∈ initial.schedule.nodes)
    (finalizes : target.item ∈ finalizer.finalizes) (plain : target.finalizes = [])
    (executed : (execution.state target.item).isExecuted = true) :
    stopped.finalizesExecuted finalizer = true := by
  obtain ⟨stoppedValid, schedule, aborted, _, later, rest⟩ := halts.sound valid
  refine List.any_eq_true.mpr ⟨target.item, finalizes, ?_⟩
  cases state : stopped.state target.item with
  | waiting =>
      have kept := stoppedValid.keepsFinalizers target (schedule ▸ member) state aborted
      simp [Execution.finalizesExecuted, plain] at kept
  | running => rfl
  | succeeded => rfl
  | failed code => rfl
  | skipped =>
      rw [rest.state_of_isTerminal stoppedValid (by rw [state]; rfl), state] at executed
      cases executed
  | notRun =>
      rw [rest.state_of_isTerminal stoppedValid (by rw [state]; rfl), state] at executed
      cases executed

theorem Halts.policy_eq (halts : Halts initial stopped execution)
    (unclosed : execution.isClosed = false) : initial.policy = .stop := by
  obtain ⟨_, base, _, _, first, running, step, aborted, rest⟩ := halts
  obtain ⟨unclosedBase, _, reason⟩ := step.keeps (rest.keeps unclosed).1
  rcases reason aborted with before | stops
  · rw [running] at before
    cases before
  · rw [← (first.keeps unclosedBase).2, stops]

/-- A finalizer that is executed in the end had a target that started before the execution was
stopped: the finalizer itself had started, or it was kept because of the target. -/
theorem Halts.finalizesExecuted_of_isExecuted (halts : Halts initial stopped execution)
    (valid : initial.Valid) (accounted : Accounted initial initial)
    (unclosed : execution.isClosed = false) {finalizer : ScheduledNode} {target : WorkItem}
    (member : finalizer ∈ initial.schedule.nodes) (finalizes : target ∈ finalizer.finalizes)
    (executed : (execution.state target).isExecuted = true)
    (performed : (execution.state finalizer.item).isExecuted = true) :
    stopped.finalizesExecuted finalizer = true := by
  obtain ⟨stoppedValid, schedule, aborted, ⟨_, first⟩, ⟨_, rest⟩⟩ := halts.sound valid
  have scheduled : finalizer ∈ stopped.schedule.nodes := schedule ▸ member
  by_cases waiting : stopped.state finalizer.item = .waiting
  · exact stoppedValid.keepsFinalizers finalizer scheduled waiting aborted
  · have performing : (stopped.state finalizer.item).isLeftOut = false := by
      by_contra leftOut
      rw [Bool.not_eq_false] at leftOut
      have same := rest.state_of_isTerminal stoppedValid (NodeState.isTerminal_of_isLeftOut leftOut)
      rw [same] at performed
      rw [NodeState.isLeftOut_of_isExecuted performed] at leftOut
      cases leftOut
    have ready := (first.accounted valid accounted (rest.keeps unclosed).1).performed
      finalizer scheduled waiting performing
    have terminal := stoppedValid.isTerminal_of_finalizes scheduled ready finalizes
    refine List.any_eq_true.mpr ⟨target, finalizes, ?_⟩
    rw [← rest.state_of_isTerminal stoppedValid terminal, executed]
    rfl

/-- If a finalizer is never given up, it is executed once the execution has completed. -/
theorem Accounted.isExecuted (accounted : Accounted initial execution) (valid : execution.Valid)
    (completed : execution.pending = 0) {finalizer : ScheduledNode} {target : WorkItem}
    (member : finalizer ∈ execution.schedule.nodes) (finalizes : target ∈ finalizer.finalizes)
    (executed : (execution.state target).isExecuted = true)
    (dependencies : ∀ waited ∈ finalizer.predecessors, waited.2 = .dependency →
      execution.state waited.1 = .succeeded)
    (kept : ∀ stopped, Halts initial stopped execution →
      stopped.finalizesExecuted finalizer = true) :
    (execution.state finalizer.item).isExecuted = true := by
  have terminal := valid.isTerminal_of_pending completed member
  rcases NodeState.isExecuted_or_isLeftOut terminal with performed | leftOut
  · exact performed
  · rcases accounted.leftOut finalizer member leftOut with
      (forced | nothing) | ⟨stopped, halts, without⟩
    · obtain ⟨waited, waits, dependency, _, bad⟩ := forced?_ne_none_iff.mp forced
      exact absurd (dependencies waited waits dependency) bad
    · simp only [hasNothingToFinalize, Bool.and_eq_true, List.all_eq_true,
        Bool.not_eq_true'] at nothing
      rw [(nothing.2 target finalizes).2] at executed
      cases executed
    · rw [kept stopped halts] at without
      cases without

/-- A finalizer of an executed item whose dependencies succeeded is executed, unless the execution
was stopped while none of its targets had started. That only happens if the targets finalize
something themselves. -/
theorem finalizer_executed_iff {plan : Plan} (reachable : plan.Reachable) {schedule : Schedule}
    (finalized : plan.finalize.result = .ok schedule) (name : String) (policy : FailurePolicy)
    (handlers : List String) (runs : Runs (start name schedule policy handlers) handed execution)
    (unclosed : execution.isClosed = false) (completed : execution.pending = 0)
    {target finalizer : ScheduledNode} (targetMember : target ∈ schedule.nodes)
    (finalizerMember : finalizer ∈ schedule.nodes) (finalizes : target.item ∈ finalizer.finalizes)
    (executed : (execution.state target.item).isExecuted = true)
    (dependencies : ∀ waited ∈ finalizer.predecessors, waited.2 = .dependency →
      execution.state waited.1 = .succeeded) :
    ((execution.state finalizer.item).isExecuted = true ↔
      ∀ stopped, Halts (start name schedule policy handlers) stopped execution →
        stopped.finalizesExecuted finalizer = true) ∧
    (policy = .proceed ∨ target.finalizes = [] →
      (execution.state finalizer.item).isExecuted = true) := by
  have wellFormed := reachable.wellFormed_of_finalize finalized
  obtain ⟨startValid, startSchedule, _⟩ := valid_start wellFormed name policy handlers
  have started := accounted_start wellFormed name policy handlers
  obtain ⟨valid, sameSchedule, _⟩ := runs.sound startValid
  have accounted := runs.accounted startValid started unclosed
  have targetStarted := startSchedule.symm ▸ targetMember
  have finalizerStarted := startSchedule.symm ▸ finalizerMember
  have equivalence : (execution.state finalizer.item).isExecuted = true ↔
      ∀ stopped, Halts (start name schedule policy handlers) stopped execution →
        stopped.finalizesExecuted finalizer = true := by
    constructor
    · intro performed stopped halts
      exact halts.finalizesExecuted_of_isExecuted startValid started unclosed finalizerStarted
        finalizes executed performed
    · exact accounted.isExecuted valid completed (sameSchedule ▸ finalizerStarted) finalizes
        executed dependencies
  refine ⟨equivalence, fun either => equivalence.mpr fun stopped halts => ?_⟩
  rcases either with proceeds | plain
  · have stops : policy = .stop := (reexamine_keeps _ _).2.symm.trans (halts.policy_eq unclosed)
    rw [proceeds] at stops
    cases stops
  · exact halts.finalizesExecuted startValid targetStarted finalizes plain executed

end Execution

/-! ## Examples -/

/-- A plan of `compile`, of `report`, which finalizes it, and of `archive`, which finalizes
`report`. -/
def Plan.chain : Plan :=
  (Plan.seed { name := "build" }
    [{ item := .task "compile", finalizers := [1] }, { item := .task "report", finalizers := [2] },
      { item := .task "archive" }]).plan

theorem Plan.reachable_chain : Plan.chain.Reachable := .seed _ (.new "build")

def Schedule.chain : Schedule :=
  .ofNodes
    [{ item := .task "compile", isEntry := true },
      { item := .task "report", predecessors := [(.task "compile", .finalizes)],
        finalizes := [.task "compile"], isEntry := true },
      { item := .task "archive", predecessors := [(.task "report", .finalizes)],
        finalizes := [.task "report"], isEntry := true }]
    []

theorem Plan.finalize_chain : Plan.chain.finalize.result = .ok .chain := rfl

namespace Execution

/-- The execution of the chain, once `compile` has failed. -/
def chainStopped : Execution :=
  (((start "build" .chain .stop []).select {}).2.1.finishNode {} Schedule.chain.nodes[0]
    (.failed 1)).1

/-- The execution of the chain, once `report` has succeeded. -/
def chainDone : Execution :=
  ((chainStopped.select {}).2.1.finishNode {} Schedule.chain.nodes[1] .success).1

theorem runs_chainDone :
    Runs (start "build" .chain .stop []) (Schedule.chain.nodes.take 2) chainDone := by
  have first : (start "build" .chain .stop []).select {} =
      (.ready Schedule.chain.nodes[0], ((start "build" .chain .stop []).select {}).2.1, {}) := rfl
  have fails : ((start "build" .chain .stop []).select {}).2.1.finish? {} (.task "compile")
      (.failed 1) = some (chainStopped, {}, []) := rfl
  have second : chainStopped.select {} =
      (.ready Schedule.chain.nodes[1], (chainStopped.select {}).2.1, {}) := rfl
  have succeeds : (chainStopped.select {}).2.1.finish? {} (.task "report") .success =
      some (chainDone, {}, []) := rfl
  exact .call (.call (.call (.call .start (.select first)) (.finish fails)) (.select second))
    (.finish succeeds)

theorem finalizer_executed_chain :
    (chainDone.state (.task "compile")).isExecuted = true ∧
      (chainDone.state (.task "report")).isExecuted = true := by
  have executed : (chainDone.state (.task "compile")).isExecuted = true := rfl
  have target : Schedule.chain.nodes[0] ∈ Schedule.chain.nodes := by decide
  have finalizer : Schedule.chain.nodes[1] ∈ Schedule.chain.nodes := by decide
  have performed := (finalizer_executed_iff Plan.reachable_chain Plan.finalize_chain "build" .stop
    [] runs_chainDone rfl rfl target finalizer (by decide) executed (by decide)).2 (.inr rfl)
  exact ⟨executed, performed⟩

/-- The finalizer of a finalizer is given up while what it finalizes still waits. -/
theorem not_executed_of_chain :
    Plan.chain.Reachable ∧ Plan.chain.finalize.result = .ok .chain ∧
    ∃ handed execution, Runs (start "build" .chain .stop []) handed execution ∧
      execution.isClosed = false ∧ execution.pending = 0 ∧
      ∃ target ∈ Schedule.chain.nodes, ∃ finalizer ∈ Schedule.chain.nodes,
        target.item ∈ finalizer.finalizes ∧ execution.state target.item = .succeeded ∧
        (∀ waited ∈ finalizer.predecessors, waited.2 ≠ .dependency) ∧
        execution.state finalizer.item = .notRun :=
  ⟨Plan.reachable_chain, Plan.finalize_chain, _, chainDone, runs_chainDone, rfl, rfl,
    Schedule.chain.nodes[1], by decide, Schedule.chain.nodes[2], by decide, by decide, rfl,
    by decide, rfl⟩

end Execution

end TaskPlanner
