import TaskPlanner.Proofs.Execution.Causes
import TaskPlanner.Proofs.Execution.HandOut

/-! An execution examines only what a call affects, and yet knows at any time what an examination of
the whole schedule would find: which items are ready, how many are not finished, and that
nothing is left to settle. -/

set_option autoImplicit false

namespace TaskPlanner.Execution

variable {execution before after : Execution} {node : ScheduledNode} {item : WorkItem}
  {state : NodeState}

/-! ## What is on offer -/

/-- Only items that wait and may start are on offer. -/
def OffersReady (execution : Execution) : Prop :=
  ∀ item ∈ execution.ready, ∃ node ∈ execution.schedule.nodes,
    node.item = item ∧ execution.state item = .waiting ∧ execution.isReady node = true

theorem moves_record (moves : (execution.state item).Moves state) (other : WorkItem) :
    (execution.state other).Moves ((execution.record item state).state other) := by
  rw [state_record]
  split
  next same => exact same ▸ moves
  next => exact .stays _

theorem mem_ready_of_record {other : WorkItem} (started : state ≠ .waiting)
    (member : other ∈ (execution.record item state).ready) :
    other ∈ execution.ready ∧ other ≠ item := by
  unfold record at member
  rw [if_neg started, List.mem_filter] at member
  exact ⟨member.1, of_decide_eq_true member.2⟩

/-- An item that leaves the waiting state is withdrawn, and what was ready stays ready. -/
theorem OffersReady.record (offers : execution.OffersReady)
    (moves : (execution.state item).Moves state) (started : state ≠ .waiting) :
    (execution.record item state).OffersReady := by
  intro other offered
  obtain ⟨member, different⟩ := mem_ready_of_record started offered
  obtain ⟨node, scheduled, same, waiting, ready⟩ := offers other member
  refine ⟨node, scheduled, same, ?_, isReady_of_moves (moves_record moves) ready⟩
  rw [state_record, if_neg different, waiting]

theorem OffersReady.markReady (offers : execution.OffersReady)
    (scheduled : node ∈ execution.schedule.nodes) (waiting : execution.state node.item = .waiting)
    (ready : execution.isReady node = true) : (execution.markReady node.item).OffersReady := by
  intro other offered
  rw [(settles_markReady execution node.item).schedule]
  simp only [state_markReady, isReady_markReady]
  rcases mem_ready_markReady.mp offered with rfl | earlier
  · exact ⟨node, scheduled, rfl, waiting, ready⟩
  · exact offers other earlier

theorem OffersReady.examines {added : List ScheduledNode} (offers : execution.OffersReady)
    (scheduled : node ∈ execution.schedule.nodes)
    (examines : execution.Examines node after added) : after.OffersReady := by
  cases examines with
  | passes => exact offers
  | @settles state waiting settled =>
      have terminal := isTerminal_of_settled? settled
      exact offers.record (waiting ▸ .settles terminal)
        (NodeState.ne_waiting_of_isTerminal terminal)
  | offers waiting _ ready => exact offers.markReady scheduled waiting ready
  | waits => exact offers

theorem OffersReady.reexamine (offers : execution.OffersReady) {nodes : List ScheduledNode}
    (scheduled : nodes ⊆ execution.schedule.nodes) : (execution.reexamine nodes).OffersReady := by
  suffices kept : (execution.reexamine nodes).schedule = execution.schedule ∧
      (execution.reexamine nodes).OffersReady from kept.2
  refine propagate_induction
    (fun current => current.schedule = execution.schedule ∧ current.OffersReady)
    (· ∈ execution.schedule.nodes) ?_ ⟨rfl, offers⟩ scheduled _
  intro current node next added member ⟨same, offers⟩ examines
  rw [← same] at member ⊢
  exact ⟨⟨examines.frame.schedule, offers.examines member examines⟩,
    fun other queued => examines.added_subset queued⟩

/-! ## Calls -/

theorem offersReady_start (name : String) (schedule : Schedule) (policy : FailurePolicy)
    (handlers : List String) : (start name schedule policy handlers).OffersReady := by
  have nothing : OffersReady
      { name, schedule, policy, handlers, pending := schedule.nodes.length } :=
    fun item offered => absurd offered List.not_mem_nil
  exact nothing.reexamine (List.Subset.refl _)

theorem OffersReady.select {locks table : LockTable} {selection : Selection}
    (offers : execution.OffersReady)
    (selected : execution.select locks = (selection, after, table)) : after.OffersReady := by
  cases selects selected with
  | finished => exact offers
  | waiting => exact offers
  | @ready node preferred _ startable _ =>
      have offered : ({ execution with preferred } : Execution).OffersReady := offers
      exact offered.record ((canStart_iff.mp startable).1 ▸ .starts) NodeState.noConfusion

theorem OffersReady.finishNode {locks table : LockTable} {outcome : TaskOutcome}
    {notifications : List Notification} (offers : execution.OffersReady)
    (finished : execution.finishNode locks node outcome = (after, table, notifications)) :
    after.OffersReady := by
  unfold Execution.finishNode at finished
  split at finished
  next =>
    cases finished
    exact offers
  next started =>
    cases finished
    have running := not_not.mp started
    have recorded : (execution.record node.item (.ofOutcome outcome)).OffersReady :=
      offers.record (running ▸ .ends outcome)
        (NodeState.ne_waiting_of_isTerminal (NodeState.isTerminal_ofOutcome outcome))
    have settled : ((execution.record node.item (.ofOutcome outcome)).settleAfter node.item
        outcome).OffersReady := by
      unfold settleAfter
      split
      · have stopped : ({ execution.record node.item (.ofOutcome outcome) with
            isAborted := true } : Execution).OffersReady := recorded
        exact stopped.reexamine (List.Subset.refl _)
      · exact recorded.reexamine List.filter_sublist.subset
    exact settled

theorem OffersReady.close (offers : execution.OffersReady) : execution.close.OffersReady := by
  suffices kept : execution.close.OffersReady ∧ ∀ item, execution.close.state item =
      execution.state item ∨ execution.close.state item = .notRun from kept.1
  refine close_induction (fun current => current.OffersReady ∧ ∀ item,
    current.state item = execution.state item ∨ current.state item = .notRun)
    (fun _ => ⟨offers, fun _ => .inl rfl⟩) ⟨offers, fun _ => .inl rfl⟩ ?_
  intro current item waiting ⟨offers, states⟩
  have moves : (current.state item).Moves .notRun := by
    rcases states item with same | left
    · rw [same, waiting]
      exact .settles rfl
    · rw [left]
      exact .stays _
  refine ⟨offers.record moves NodeState.noConfusion, fun other => ?_⟩
  rw [state_record]
  split
  · exact .inr rfl
  · exact states other

theorem OffersReady.step {node? : Option ScheduledNode} (offers : execution.OffersReady)
    (step : execution.Step node? after) : after.OffersReady := by
  cases step with
  | select selected => exact offers.select selected
  | finish finished =>
      obtain ⟨node, _, _, finishes⟩ := finishNode_of_finish? finished
      exact offers.finishNode finishes
  | close => exact offers.close

theorem Runs.offersReady {initial : Execution} {handed : List ScheduledNode}
    (offers : initial.OffersReady) (runs : Runs initial handed execution) :
    execution.OffersReady := by
  induction runs with
  | start => exact offers
  | call _ step ih => exact ih.step step

/-! ## Nothing is left to examine -/

theorem Valid.mem_ready_iff (valid : execution.Valid) (offers : execution.OffersReady) :
    item ∈ execution.ready ↔ ∃ node ∈ execution.schedule.nodes,
      node.item = item ∧ execution.state item = .waiting ∧ execution.isReady node = true := by
  constructor
  · exact offers item
  · rintro ⟨node, scheduled, rfl, waiting, ready⟩
    exact valid.examined.offered node scheduled waiting List.not_mem_nil ready

theorem markReady_of_mem (offered : item ∈ execution.ready) :
    execution.markReady item = execution :=
  if_pos offered

/-- To examine scheduled nodes once more changes nothing. -/
theorem Valid.propagate_eq (valid : execution.Valid) {queue : List ScheduledNode}
    (scheduled : queue ⊆ execution.schedule.nodes) (steps : Nat) :
    propagate steps queue execution = execution := by
  refine propagate_induction (· = execution) (· ∈ execution.schedule.nodes) ?_ rfl scheduled steps
  rintro current node next added member rfl examines
  refine ⟨?_, fun other queued => examines.added_subset queued⟩
  cases examines with
  | passes => rfl
  | settles waiting settled =>
      have unsettled := valid.examined.unsettled node member waiting List.not_mem_nil
      rw [settled] at unsettled
      cases unsettled
  | offers waiting _ ready =>
      exact markReady_of_mem
        (valid.examined.offered node member waiting List.not_mem_nil ready)
  | waits => rfl

/-- The items that come to an end between two executions. -/
def endedItems (before after : Execution) : List WorkItem :=
  before.schedule.items.filter fun item =>
    !(before.state item).isTerminal && (after.state item).isTerminal

/-- The items that end are the difference of the items that are not finished. -/
theorem unfinished_add_length_endedItems (schedule : after.schedule = before.schedule)
    (moves : ∀ item, (before.state item).Moves (after.state item)) :
    after.unfinished + (endedItems before after).length = before.unfinished := by
  unfold unfinished endedItems
  rw [schedule, ← List.countP_eq_length_filter,
    List.countP_eq_countP_filter_add before.schedule.items
      (fun item => !(before.state item).isTerminal) fun item => !(after.state item).isTerminal,
    List.countP_filter, List.countP_filter]
  congr 1
  · refine List.countP_congr fun item _ => ?_
    cases ended : (before.state item).isTerminal with
    | false => simp
    | true => simp [(moves item).eq_of_isTerminal ended, ended]
  · refine List.countP_congr fun item _ => ?_
    simp

theorem Valid.canStart_eq_false {locks table : LockTable} (valid : execution.Valid)
    (selected : execution.select locks = (.waiting, after, table))
    (scheduled : node ∈ execution.schedule.nodes) : execution.canStart locks node = false := by
  cases selects selected with
  | waiting _ none =>
      cases startable : execution.canStart locks node with
      | false => rfl
      | true =>
          obtain ⟨waiting, ready, _⟩ := canStart_iff.mp startable
          have offered := valid.examined.offered node scheduled waiting List.not_mem_nil ready
          rw [none node (List.mem_filter.mpr ⟨scheduled, decide_eq_true offered⟩)] at startable
          cases startable

/-- After any calls, nothing that waits is settled, the items on offer are those that wait and may
start, and the items that are not finished are counted. Each call takes off the count what
ended in it, a further examination finds nothing, and a selection is empty-handed only if
nothing could start. -/
theorem examination_complete {plan : Plan} (reachable : plan.Reachable) {schedule : Schedule}
    (finalized : plan.finalize.result = .ok schedule) (name : String) (policy : FailurePolicy)
    (handlers : List String) {handed : List ScheduledNode}
    (runs : Runs (start name schedule policy handlers) handed execution) :
    (∀ node ∈ schedule.nodes, execution.state node.item = .waiting →
      execution.settled? node = none) ∧
    (∀ item, item ∈ execution.ready ↔ ∃ node ∈ schedule.nodes, node.item = item ∧
      execution.state item = .waiting ∧ execution.isReady node = true) ∧
    execution.pending = schedule.items.countP (fun item => !(execution.state item).isTerminal) ∧
    (∀ node? after, execution.Step node? after →
      after.pending + (endedItems execution after).length = execution.pending) ∧
    (∀ steps, ∀ queue ⊆ schedule.nodes, propagate steps queue execution = execution) ∧
    execution.reexamine schedule.nodes = execution ∧
    ∀ locks after table, execution.select locks = (.waiting, after, table) →
      ∀ node ∈ schedule.nodes, execution.canStart locks node = false := by
  obtain ⟨startValid, startSchedule, _⟩ :=
    valid_start (reachable.wellFormed_of_finalize finalized) name policy handlers
  obtain ⟨valid, sameSchedule, _⟩ := runs.sound startValid
  have offers := runs.offersReady (offersReady_start name schedule policy handlers)
  have same : execution.schedule = schedule := sameSchedule.trans startSchedule
  subst same
  refine ⟨fun node member waiting => ?_, fun item => valid.mem_ready_iff offers,
    valid.examined.pending, fun node? after step => ?_,
    fun steps queue scheduled => valid.propagate_eq scheduled steps,
    valid.propagate_eq (List.Subset.refl _) _,
    fun locks after table selected node member => valid.canStart_eq_false selected member⟩
  · exact valid.examined.unsettled node member waiting List.not_mem_nil
  · obtain ⟨afterValid, kept, moves⟩ := valid.step step
    rw [afterValid.examined.pending, valid.examined.pending]
    exact unfinished_add_length_endedItems kept moves

/-- Once the first of two tasks has succeeded, the second one is on offer, and an examination of
both finds nothing new. -/
theorem examination_complete_pair :
    Plan.pair.finalize.result = .ok .pair ∧ pairHalf.pending = 1 ∧
      .task "test" ∈ pairHalf.ready ∧ pairHalf.reexamine Schedule.pair.nodes = pairHalf := by
  obtain ⟨_, offered, counted, _, _, unchanged, _⟩ :=
    examination_complete Plan.reachable_pair Plan.finalize_pair "build" .stop [] runs_pairHalf
  refine ⟨Plan.finalize_pair, counted, (offered _).mpr ?_, unchanged⟩
  exact ⟨Schedule.pair.nodes[1], List.getElem_mem _, rfl, rfl, rfl⟩

end TaskPlanner.Execution
