import TaskPlanner.Proofs.Execution.Calls

/-! Why a waiting item came to an end. Propagation settles a node by the states that it finds, and
what it finds about others only becomes more certain. An examination of the whole schedule is
exact: afterwards every node is where the final states of the others put it. -/

set_option autoImplicit false

namespace TaskPlanner

/-- Neither a node nor what stands in front of it waits for the node. -/
theorem Schedule.WellFormed.waits_for_earlier {schedule : Schedule}
    (wellFormed : schedule.WellFormed) {passed rest : List ScheduledNode}
    {node other : ScheduledNode} (split : schedule.nodes = passed ++ node :: rest)
    (member : other ∈ passed ++ [node]) : ∀ waited ∈ other.predecessors, waited.1 ≠ node.item := by
  intro waited waits same
  have distinct : (passed.map (·.item) ++ node.item :: rest.map (·.item)).Nodup := by
    have items := wellFormed.distinct
    unfold Schedule.items at items
    rwa [split, List.map_append, List.map_cons] at items
  have fresh : node.item ∉ passed.map (·.item) := fun inside =>
    (List.nodup_append.mp distinct).2.2 _ inside _ List.mem_cons_self rfl
  rcases List.mem_append.mp member with earlier | here
  · obtain ⟨front, between, rfl⟩ := List.append_of_mem earlier
    rw [List.append_assoc, List.cons_append] at split
    have before := wellFormed.ordered front other _ split waited waits
    rw [same] at before
    exact fresh (by simp [List.map_append, before])
  · cases List.mem_singleton.mp here
    have before := wellFormed.ordered passed node rest split waited waits
    rw [same] at before
    exact fresh before

namespace Execution

variable {execution before after : Execution} {node : ScheduledNode} {item : WorkItem}

/-! ## Findings that stay -/

theorem forced?_ne_none_iff :
    execution.forced? node ≠ none ↔ ∃ waited ∈ node.predecessors, waited.2 = .dependency ∧
      (execution.state waited.1).isTerminal = true ∧ execution.state waited.1 ≠ .succeeded := by
  unfold forced?
  rw [Ne, List.findSome?_eq_none_iff]
  push Not
  refine exists_congr fun waited => and_congr_right fun _ => ?_
  obtain ⟨other, kind⟩ := waited
  dsimp only
  cases kind <;> cases execution.state other <;> simp [forcedBy, NodeState.isTerminal]

/-- The node will never run: a dependency did not succeed, or nothing that it is there for was
executed. -/
def IsBarred (execution : Execution) (node : ScheduledNode) : Prop :=
  execution.forced? node ≠ none ∨ execution.hasNothingToFinalize node = true

theorem settled?_cases {result : NodeState} (settled : execution.settled? node = some result) :
    (execution.isAborted = true ∧ execution.finalizesExecuted node = false ∧ result = .notRun) ∨
    (execution.IsBarred node ∧ result.isLeftOut = true) ∨
    (result = .succeeded ∧ execution.isReady node = true) := by
  unfold settled? at settled
  split at settled
  next stopped =>
    cases settled
    simp only [Bool.and_eq_true, Bool.not_eq_true'] at stopped
    exact .inl ⟨stopped.1, stopped.2, rfl⟩
  next =>
    split at settled
    next state forced =>
      cases settled
      exact .inr (.inl ⟨.inl (by simp [forced]), isLeftOut_of_forced? forced⟩)
    next =>
      split at settled
      next nothing =>
        cases settled
        exact .inr (.inl ⟨.inr nothing, rfl⟩)
      next =>
        split at settled
        next ready =>
          cases settled
          exact .inr (.inr ⟨rfl, (Bool.and_eq_true_iff.mp ready).2⟩)
        next => cases settled

section Moves

variable (moves : ∀ item, NodeState.Moves (before.state item) (after.state item))
include moves

theorem isReady_of_moves (ready : before.isReady node = true) : after.isReady node = true := by
  rw [isReady_iff] at ready ⊢
  intro waited waits
  have satisfied := ready waited waits
  rw [(moves waited.1).eq_of_isTerminal (isTerminal_of_isSatisfied satisfied)]
  exact satisfied

theorem isBarred_of_moves (barred : before.IsBarred node) : after.IsBarred node := by
  rcases barred with forced | nothing
  · left
    rw [forced?_ne_none_iff] at forced ⊢
    obtain ⟨waited, waits, dependency, terminal, bad⟩ := forced
    refine ⟨waited, waits, dependency, ?_⟩
    rw [(moves waited.1).eq_of_isTerminal terminal]
    exact ⟨terminal, bad⟩
  · right
    simp only [hasNothingToFinalize, Bool.and_eq_true, List.all_eq_true] at nothing ⊢
    refine ⟨nothing.1, fun target finalized => ?_⟩
    have unexecuted := nothing.2 target finalized
    rw [(moves target).eq_of_isTerminal unexecuted.1]
    exact unexecuted

theorem finalizesExecuted_of_moves (executed : before.finalizesExecuted node = true) :
    after.finalizesExecuted node = true := by
  unfold finalizesExecuted at executed ⊢
  rw [List.any_eq_true] at executed ⊢
  obtain ⟨target, finalized, performed⟩ := executed
  refine ⟨target, finalized, ?_⟩
  have move := moves target
  generalize before.state target = old at move performed
  generalize after.state target = new at move
  cases move with
  | stays => exact performed
  | starts => simp [NodeState.isExecuted] at performed
  | ends outcome => cases outcome <;> rfl
  | settles => simp [NodeState.isExecuted] at performed

end Moves

/-! ## Propagation -/

/-- What one examination keeps, propagation keeps, if only nodes of a certain kind are queued. -/
theorem propagate_induction (property : Execution → Prop) (inside : ScheduledNode → Prop)
    (step : ∀ execution node after added, inside node → property execution →
      Examines execution node after added → property after ∧ ∀ other ∈ added, inside other)
    (holds : property execution) {queue : List ScheduledNode}
    (queued : ∀ node ∈ queue, inside node) (steps : Nat) :
    property (propagate steps queue execution) := by
  induction steps generalizing queue execution with
  | zero => exact holds
  | succ steps ih =>
      cases queue with
      | nil => exact holds
      | cons node queue =>
          obtain ⟨here, behind⟩ := List.forall_mem_cons.mp queued
          obtain ⟨next, added, examines, same⟩ := propagate_cons execution node steps queue
          obtain ⟨kept, more⟩ := step execution node next added here holds examines
          rw [same]
          exact ih kept fun other member =>
            (List.mem_append.mp member).elim (behind other) (more other)

/-- What changes of state and offers keep, propagation keeps. -/
theorem propagate_keeps (property : Execution → Prop)
    (record : ∀ execution item state, property execution → property (execution.record item state))
    (markReady : ∀ execution item, property execution → property (execution.markReady item))
    (holds : property execution) (steps : Nat) (queue : List ScheduledNode) :
    property (propagate steps queue execution) := by
  refine propagate_induction property (fun _ => True) ?_ holds (fun _ _ => trivial) steps
  intro execution node after added _ before examines
  refine ⟨?_, fun _ _ => trivial⟩
  cases examines with
  | passes => exact before
  | settles => exact record _ _ _ before
  | offers => exact markReady _ _ before
  | waits => exact before

theorem settles_propagate (steps : Nat) (queue : List ScheduledNode) (execution : Execution) :
    Settles execution (propagate steps queue execution) :=
  propagate_induction (Settles execution) (fun _ => True)
    (fun _ _ _ _ _ settles examines => ⟨settles.trans examines.frame, fun _ _ => trivial⟩)
    (.refl execution) (fun _ _ => trivial) steps

theorem Examines.settled?_eq {added : List ScheduledNode}
    (examines : execution.Examines node after added)
    (waiting : execution.state node.item = .waiting) (ended : after.state node.item ≠ .waiting) :
    execution.settled? node = some (after.state node.item) := by
  cases examines with
  | passes started => exact absurd waiting started
  | settles _ settled => rw [state_record, if_pos rfl, settled]
  | offers =>
      rw [state_markReady] at ended
      exact absurd waiting ended
  | waits => exact absurd waiting ended

/-- A node that propagation settles was settled by the states at some point on the way. -/
theorem exists_settled?_of_propagate {steps : Nat} {queue : List ScheduledNode}
    (wellFormed : execution.schedule.WellFormed) (scheduled : queue ⊆ execution.schedule.nodes)
    (member : node ∈ execution.schedule.nodes) (waiting : execution.state node.item = .waiting)
    (ended : (propagate steps queue execution).state node.item ≠ .waiting) :
    ∃ middle, Settles execution middle ∧ Settles middle (propagate steps queue execution) ∧
      middle.settled? node = some ((propagate steps queue execution).state node.item) := by
  induction steps generalizing queue execution with
  | zero => exact absurd waiting ended
  | succ steps ih =>
      cases queue with
      | nil => exact absurd waiting ended
      | cons head queue =>
          obtain ⟨headScheduled, restScheduled⟩ := List.cons_subset.mp scheduled
          obtain ⟨next, added, examines, same⟩ := propagate_cons execution head steps queue
          have frame := examines.frame
          have rest := settles_propagate steps (queue ++ added) next
          rw [same] at ended ⊢
          by_cases still : next.state node.item = .waiting
          · have queued : queue ++ added ⊆ next.schedule.nodes := by
              rw [frame.schedule]
              exact List.append_subset.mpr ⟨restScheduled, examines.added_subset⟩
            obtain ⟨middle, before, after, found⟩ := ih (frame.schedule ▸ wellFormed) queued
              (frame.schedule ▸ member) still ended
            exact ⟨middle, frame.trans before, after, found⟩
          · -- Only the examined node can have changed.
            have sameItem : node.item = head.item := by
              by_contra different
              exact still ((examines.state_of_ne different).trans waiting)
            cases wellFormed.node_unique member headScheduled sameItem
            have settled := examines.settled?_eq waiting still
            have kept := (rest.moves node.item).eq_of_isTerminal (isTerminal_of_settled? settled)
            refine ⟨execution, .refl execution, frame.trans rest, ?_⟩
            rw [kept, settled]

/-! ## One pass over the schedule -/

/-- The node is where the states of the others put it. -/
def IsSettled (execution : Execution) (node : ScheduledNode) : Prop :=
  execution.state node.item = (execution.settled? node).getD .waiting

theorem IsSettled.settled?_eq_some (settled : execution.IsSettled node)
    (left : execution.state node.item ≠ .waiting) :
    execution.settled? node = some (execution.state node.item) := by
  unfold IsSettled at settled
  cases found : execution.settled? node with
  | none =>
      rw [found] at settled
      exact absurd settled left
  | some state =>
      rw [found] at settled
      rw [settled]
      rfl

theorem IsSettled.settled?_eq_none (settled : execution.IsSettled node)
    (waiting : execution.state node.item = .waiting) : execution.settled? node = none := by
  unfold IsSettled at settled
  cases found : execution.settled? node with
  | none => rfl
  | some state =>
      have terminal := isTerminal_of_settled? found
      rw [found, waiting] at settled
      cases settled
      cases terminal

section Examines

variable {head : ScheduledNode} {added : List ScheduledNode}
  (examines : execution.Examines head after added)
  (wellFormed : execution.schedule.WellFormed) (member : node ∈ execution.schedule.nodes)
  (independent : ∀ waited ∈ node.predecessors, waited.1 ≠ head.item)
include examines wellFormed member independent

/-- An examination says nothing new about a node that does not wait for the examined one. -/
theorem Examines.settled?_eq_of_independent : after.settled? node = execution.settled? node := by
  cases examines with
  | passes => rfl
  | settles =>
      refine (unaffected wellFormed member fun dependent => ?_).1
      obtain ⟨_, waited, waits, same⟩ := mem_dependents.mp dependent
      exact independent waited waits same
  | offers => exact settled?_markReady head.item
  | waits => rfl

theorem Examines.isSettled_of_ne (different : node.item ≠ head.item)
    (settled : execution.IsSettled node) : after.IsSettled node := by
  unfold IsSettled at settled ⊢
  rw [examines.settled?_eq_of_independent wellFormed member independent,
    examines.state_of_ne different]
  exact settled

theorem Examines.isSettled (same : node = head)
    (waiting : execution.state node.item = .waiting) : after.IsSettled node := by
  unfold IsSettled
  rw [examines.settled?_eq_of_independent wellFormed member independent]
  cases same
  cases examines with
  | passes started => exact absurd waiting started
  | settles _ settled =>
      rw [settled, state_record, if_pos rfl]
      rfl
  | offers _ unsettled =>
      rw [unsettled, state_markReady, waiting]
      rfl
  | waits _ unsettled =>
      rw [unsettled, waiting]
      rfl

end Examines

/-- A pass over the schedule has come to `rest`. What lies behind is where the others put it, and
what lies ahead was left alone. -/
structure Passes (initial execution : Execution) (passed rest : List ScheduledNode) : Prop where
  split : initial.schedule.nodes = passed ++ rest
  settles : Settles initial execution
  ahead : ∀ node ∈ rest, execution.state node.item = initial.state node.item
  behind : ∀ node ∈ passed, initial.state node.item = .waiting → execution.IsSettled node

section Passes

variable {initial : Execution} {head : ScheduledNode} {passed rest added : List ScheduledNode}

/-- What was passed does not change any more, because nothing waits for an item behind it. -/
theorem Passes.advance (pass : Passes initial execution passed (head :: rest))
    (wellFormed : initial.schedule.WellFormed) (examines : execution.Examines head after added) :
    Passes initial after (passed ++ [head]) rest := by
  have schedule := pass.settles.schedule
  have distinct : (passed.map (·.item) ++ head.item :: rest.map (·.item)).Nodup := by
    have items := wellFormed.distinct
    unfold Schedule.items at items
    rwa [pass.split, List.map_append, List.map_cons] at items
  constructor
  · rw [pass.split, List.append_assoc, List.singleton_append]
  · exact pass.settles.trans examines.frame
  · intro node member
    have different : node.item ≠ head.item := fun same =>
      (List.nodup_cons.mp (List.nodup_append.mp distinct).2.1).1
        (same ▸ List.mem_map_of_mem member)
    rw [examines.state_of_ne different]
    exact pass.ahead node (List.mem_cons_of_mem _ member)
  · intro node member waiting
    have independent := wellFormed.waits_for_earlier pass.split member
    rcases List.mem_append.mp member with earlier | here
    · have present : node ∈ initial.schedule.nodes := by
        rw [pass.split]
        exact List.mem_append_left _ earlier
      have different : node.item ≠ head.item :=
        (List.nodup_append.mp distinct).2.2 _ (List.mem_map_of_mem earlier) _ List.mem_cons_self
      exact examines.isSettled_of_ne (schedule ▸ wellFormed) (schedule ▸ present) independent
        different (pass.behind node earlier waiting)
    · have same := List.mem_singleton.mp here
      have present : node ∈ initial.schedule.nodes := by
        rw [pass.split, same]
        exact List.mem_append_right _ List.mem_cons_self
      refine examines.isSettled (schedule ▸ wellFormed) (schedule ▸ present) independent same ?_
      rw [pass.ahead node (same ▸ List.mem_cons_self)]
      exact waiting

/-- Behind the pass nothing is left to settle. -/
theorem Passes.revisit (pass : Passes initial execution passed [])
    (member : head ∈ initial.schedule.nodes) (examines : execution.Examines head after added) :
    Passes initial after passed [] := by
  cases examines with
  | passes => exact pass
  | settles waiting settled =>
      have before : initial.state head.item = .waiting := by
        rcases pass.settles.moved head.item with stayed | ⟨opened, _⟩
        · rw [← stayed]
          exact waiting
        · exact opened
      rw [pass.split, List.append_nil] at member
      rw [(pass.behind head member before).settled?_eq_none waiting] at settled
      cases settled
  | offers =>
      refine ⟨pass.split, pass.settles.trans (settles_markReady _ _), by simp, ?_⟩
      intro node inside waiting
      unfold IsSettled
      rw [state_markReady, settled?_markReady]
      exact pass.behind node inside waiting
  | waits => exact pass

theorem Passes.isSettled (pass : Passes initial execution passed []) :
    ∀ node ∈ initial.schedule.nodes, initial.state node.item = .waiting →
      execution.IsSettled node := by
  rw [pass.split, List.append_nil]
  exact pass.behind

theorem Passes.isSettled_propagate {steps : Nat} {extra : List ScheduledNode}
    (pass : Passes initial execution passed rest) (wellFormed : initial.schedule.WellFormed)
    (scheduled : extra ⊆ initial.schedule.nodes) (enough : rest.length ≤ steps) :
    ∀ node ∈ initial.schedule.nodes, initial.state node.item = .waiting →
      (propagate steps (rest ++ extra) execution).IsSettled node := by
  induction steps generalizing execution passed rest extra with
  | zero =>
      cases List.length_eq_zero_iff.mp (Nat.le_zero.mp enough)
      exact pass.isSettled
  | succ steps ih =>
      cases rest with
      | nil =>
          cases extra with
          | nil => exact pass.isSettled
          | cons head extra =>
              obtain ⟨headScheduled, extraScheduled⟩ := List.cons_subset.mp scheduled
              obtain ⟨next, added, examines, same⟩ := propagate_cons execution head steps extra
              have queued : extra ++ added ⊆ initial.schedule.nodes :=
                List.append_subset.mpr
                  ⟨extraScheduled, pass.settles.schedule ▸ examines.added_subset⟩
              rw [List.nil_append, same, ← List.nil_append (extra ++ added)]
              exact ih (pass.revisit headScheduled examines) queued (Nat.zero_le _)
      | cons head rest =>
          obtain ⟨next, added, examines, same⟩ :=
            propagate_cons execution head steps (rest ++ extra)
          have queued : extra ++ added ⊆ initial.schedule.nodes :=
            List.append_subset.mpr ⟨scheduled, pass.settles.schedule ▸ examines.added_subset⟩
          rw [List.cons_append, same, List.append_assoc]
          exact ih (pass.advance wellFormed examines) queued (Nat.le_of_succ_le_succ enough)

end Passes

/-- An examination of the whole schedule is exact. -/
theorem isSettled_reexamine (execution : Execution) (wellFormed : execution.schedule.WellFormed) :
    ∀ node ∈ execution.schedule.nodes, execution.state node.item = .waiting →
      (execution.reexamine execution.schedule.nodes).IsSettled node := by
  have pass : Passes execution execution [] execution.schedule.nodes :=
    ⟨rfl, .refl execution, fun _ _ => rfl, by simp⟩
  have examined := pass.isSettled_propagate wellFormed (List.nil_subset _)
    (Nat.le_add_right _ execution.schedule.constraintCount)
  rw [List.append_nil] at examined
  exact examined

end Execution

end TaskPlanner
