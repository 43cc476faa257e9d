import Mathlib.Algebra.GroupWithZero.Nat
import TaskPlanner.Execution
import TaskPlanner.Proofs.Counting
import TaskPlanner.Proofs.Schedule.WellFormed

/-! Propagation leaves no waiting item behind that is settled or could start without being
offered. An item that settles only affects its dependents, and these are queued again. -/

set_option autoImplicit false

namespace TaskPlanner

theorem NodeState.isTerminal_of_isLeftOut {state : NodeState} (leftOut : state.isLeftOut = true) :
    state.isTerminal = true := by
  cases state <;> first | rfl | cases leftOut

namespace Execution

variable {execution before after : Execution} {node : ScheduledNode}

/-! ## What the states of others decide -/

theorem isTerminal_of_isSatisfied {kind : EdgeKind} {state : NodeState}
    (satisfied : isSatisfied kind state = true) : state.isTerminal = true := by
  cases kind with
  | dependency => rw [of_decide_eq_true satisfied]; rfl
  | finalizes => exact satisfied
  | ordinal => exact satisfied

theorem isReady_iff :
    execution.isReady node = true ↔ ∀ waited ∈ node.predecessors,
      isSatisfied waited.2 (execution.state waited.1) = true :=
  List.all_eq_true

theorem isLeftOut_of_forcedBy {kind : EdgeKind} {state result : NodeState}
    (forced : forcedBy kind state = some result) : result.isLeftOut = true := by
  unfold forcedBy at forced
  split at forced <;> cases forced <;> rfl

theorem isLeftOut_of_forced? {result : NodeState} (forced : execution.forced? node = some result) :
    result.isLeftOut = true := by
  obtain ⟨waited, _, forcedBy⟩ := List.exists_of_findSome?_eq_some forced
  exact isLeftOut_of_forcedBy forcedBy

theorem isTerminal_of_settled? {result : NodeState}
    (settled : execution.settled? node = some result) : result.isTerminal = true := by
  unfold settled? at settled
  split at settled
  · cases settled; rfl
  · split at settled
    next state forced =>
      cases settled
      exact NodeState.isTerminal_of_isLeftOut (isLeftOut_of_forced? forced)
    next =>
      split at settled
      · cases settled; rfl
      · split at settled
        · cases settled; rfl
        · cases settled

theorem settled?_eq_none_iff :
    execution.settled? node = none ↔
      (execution.isAborted = true → execution.finalizesExecuted node = true) ∧
      execution.forced? node = none ∧ execution.hasNothingToFinalize node = false ∧
      (execution.isReady node = true → node.isMarker = false ∧ node.isExecuted = false) := by
  unfold settled?
  cases execution.isAborted <;> cases execution.finalizesExecuted node <;>
    cases execution.forced? node <;> cases execution.hasNothingToFinalize node <;>
    cases execution.isReady node <;> simp

/-- What holds back a node that nothing settles has not come to an end. -/
theorem exists_unfinished_of_settled?_eq_none (unsettled : execution.settled? node = none)
    (unready : execution.isReady node = false) :
    ∃ waited ∈ node.predecessors, (execution.state waited.1).isTerminal = false := by
  have unforced := (settled?_eq_none_iff.mp unsettled).2.1
  obtain ⟨⟨item, kind⟩, member, unsatisfied⟩ := List.all_eq_false.mp unready
  refine ⟨(item, kind), member, ?_⟩
  have free := List.findSome?_eq_none_iff.mp unforced (item, kind) member
  cases kind with
  | dependency =>
      cases found : execution.state item <;> simp_all [isSatisfied, forcedBy, NodeState.isTerminal]
  | finalizes => exact Bool.eq_false_iff.mpr unsatisfied
  | ordinal => exact Bool.eq_false_iff.mpr unsatisfied

theorem isReady_congr (same : ∀ waited ∈ node.predecessors,
      isSatisfied waited.2 (after.state waited.1) = isSatisfied waited.2 (before.state waited.1)) :
    after.isReady node = before.isReady node := by
  rw [Bool.eq_iff_iff, isReady_iff, isReady_iff]
  exact forall₂_congr fun waited member => by rw [same waited member]

theorem forced?_congr (same : ∀ waited ∈ node.predecessors,
      forcedBy waited.2 (after.state waited.1) = forcedBy waited.2 (before.state waited.1)) :
    after.forced? node = before.forced? node := by
  unfold forced?
  generalize node.predecessors = waitings at same
  induction waitings with
  | nil => rfl
  | cons waited rest ih =>
      have here := same waited List.mem_cons_self
      obtain ⟨item, kind⟩ := waited
      rw [List.findSome?_cons, List.findSome?_cons,
        ih fun other member => same other (List.mem_cons_of_mem _ member)]
      dsimp only at here ⊢
      rw [here]

theorem hasNothingToFinalize_congr (same : ∀ target ∈ node.finalizes,
      ((after.state target).isTerminal && !(after.state target).isExecuted) =
        ((before.state target).isTerminal && !(before.state target).isExecuted)) :
    after.hasNothingToFinalize node = before.hasNothingToFinalize node := by
  unfold hasNothingToFinalize
  congr 1
  rw [Bool.eq_iff_iff, List.all_eq_true, List.all_eq_true]
  exact forall₂_congr fun target member => by rw [same target member]

/-- Only what a node waits for and what it finalizes decide whether it is settled. -/
theorem settled?_congr (flag : after.isAborted = before.isAborted)
    (same : ∀ waited ∈ node.predecessors, after.state waited.1 = before.state waited.1)
    (targets : ∀ target ∈ node.finalizes, after.state target = before.state target) :
    after.settled? node = before.settled? node := by
  have executed : after.finalizesExecuted node = before.finalizesExecuted node := by
    unfold finalizesExecuted
    rw [Bool.eq_iff_iff, List.any_eq_true, List.any_eq_true]
    exact exists_congr fun target => and_congr_right fun member => by rw [targets target member]
  have forced : after.forced? node = before.forced? node :=
    forced?_congr fun waited waits => by rw [same waited waits]
  have nothing : after.hasNothingToFinalize node = before.hasNothingToFinalize node :=
    hasNothingToFinalize_congr fun target finalized => by rw [targets target finalized]
  have ready : after.isReady node = before.isReady node :=
    isReady_congr fun waited waits => by rw [same waited waits]
  unfold settled?
  rw [flag, executed, forced, nothing, ready]

/-! ## What has been examined -/

/-- How many scheduled items have not reached a final state. -/
def unfinished (execution : Execution) : Nat :=
  execution.schedule.items.countP fun item => !(execution.state item).isTerminal

/-- Apart from the nodes of `queue`, every waiting node is unsettled, and is offered if it may
start. -/
structure Examined (execution : Execution) (queue : List ScheduledNode) : Prop where
  pending : execution.pending = execution.unfinished
  unsettled : ∀ node ∈ execution.schedule.nodes, execution.state node.item = .waiting →
    node ∉ queue → execution.settled? node = none
  offered : ∀ node ∈ execution.schedule.nodes, execution.state node.item = .waiting →
    node ∉ queue → execution.isReady node = true → node.item ∈ execution.ready

/-- Between `before` and `after`, waiting items came to an end, and nothing else changed. -/
structure Settles (before after : Execution) : Prop where
  schedule : after.schedule = before.schedule
  preferred : after.preferred = before.preferred
  isAborted : after.isAborted = before.isAborted
  moved : ∀ item, after.state item = before.state item ∨
    before.state item = .waiting ∧ (after.state item).isTerminal = true

theorem Settles.refl (execution : Execution) : Settles execution execution :=
  ⟨rfl, rfl, rfl, fun _ => .inl rfl⟩

theorem Settles.trans {middle : Execution} (first : Settles before middle)
    (second : Settles middle after) : Settles before after where
  schedule := second.schedule.trans first.schedule
  preferred := second.preferred.trans first.preferred
  isAborted := second.isAborted.trans first.isAborted
  moved item := by
    rcases second.moved item with same | ⟨waiting, ended⟩
    · rw [same]
      exact first.moved item
    · rcases first.moved item with same | ⟨_, finished⟩
      · exact .inr ⟨same ▸ waiting, ended⟩
      · rw [waiting] at finished
        cases finished

theorem settles_record {item : WorkItem} {state : NodeState}
    (waiting : execution.state item = .waiting) (terminal : state.isTerminal = true) :
    Settles execution (execution.record item state) := by
  refine ⟨rfl, rfl, rfl, fun other => ?_⟩
  rw [state_record]
  by_cases same : other = item
  · rw [if_pos same, same]
    exact .inr ⟨waiting, terminal⟩
  · exact .inl (if_neg same)

theorem settles_markReady (execution : Execution) (item : WorkItem) :
    Settles execution (execution.markReady item) := by
  have frame : (execution.markReady item).schedule = execution.schedule ∧
      (execution.markReady item).preferred = execution.preferred ∧
      (execution.markReady item).isAborted = execution.isAborted := by
    unfold markReady
    split <;> exact ⟨rfl, rfl, rfl⟩
  exact ⟨frame.1, frame.2.1, frame.2.2, fun other => .inl (state_markReady execution item other)⟩

theorem mem_ready_markReady {item other : WorkItem} :
    other ∈ (execution.markReady item).ready ↔ other = item ∨ other ∈ execution.ready := by
  unfold markReady
  split
  next present => exact ⟨.inr, fun either => either.elim (· ▸ present) id⟩
  next => exact List.mem_cons

@[simp] theorem pending_markReady (item : WorkItem) :
    (execution.markReady item).pending = execution.pending := by
  unfold markReady
  split <;> rfl

theorem mem_ready_record {item other : WorkItem} {state : NodeState} (different : other ≠ item)
    (member : other ∈ execution.ready) : other ∈ (execution.record item state).ready := by
  unfold record
  dsimp only
  split
  · exact member
  · exact List.mem_filter.mpr ⟨member, decide_eq_true different⟩

/-- The items that come to an end are counted off. -/
theorem unfinished_record (distinct : execution.schedule.items.Nodup) {item : WorkItem}
    (scheduled : item ∈ execution.schedule.items) {state : NodeState}
    (open' : (execution.state item).isTerminal = false) (terminal : state.isTerminal = true) :
    (execution.record item state).unfinished + 1 = execution.unfinished := by
  refine Counting.countP_of_leaves distinct scheduled (by rw [open']; rfl) ?_ ?_
  · rw [state_record, if_pos rfl, terminal]
    rfl
  · intro other _ different
    rw [state_record, if_neg different]

theorem pending_record_terminal (distinct : execution.schedule.items.Nodup) {item : WorkItem}
    (scheduled : item ∈ execution.schedule.items) {state : NodeState}
    (open' : (execution.state item).isTerminal = false) (terminal : state.isTerminal = true)
    (pending : execution.pending = execution.unfinished) :
    (execution.record item state).pending = (execution.record item state).unfinished := by
  have counted := unfinished_record distinct scheduled open' terminal
  have dropped : (execution.record item state).pending = execution.pending - 1 := by
    simp [record, open', terminal]
  omega

/-! ## Propagation -/

theorem mem_dependents {item : WorkItem} :
    node ∈ execution.dependents item ↔
      node ∈ execution.schedule.nodes ∧ ∃ waited ∈ node.predecessors, waited.1 = item := by
  simp only [dependents, List.mem_filter, List.any_eq_true, decide_eq_true_eq]

/-- A change to one item leaves those alone that neither wait for it nor finalize it. -/
theorem unaffected (wellFormed : execution.schedule.WellFormed) {item : WorkItem}
    {state : NodeState} (member : node ∈ execution.schedule.nodes)
    (independent : node ∉ execution.dependents item) :
    (execution.record item state).settled? node = execution.settled? node ∧
      (execution.record item state).isReady node = execution.isReady node := by
  have apart : ∀ waited ∈ node.predecessors, waited.1 ≠ item := fun waited waits same =>
    independent (mem_dependents.mpr ⟨member, waited, waits, same⟩)
  have same : ∀ waited ∈ node.predecessors,
      (execution.record item state).state waited.1 = execution.state waited.1 := by
    intro waited waits
    rw [state_record, if_neg (apart waited waits)]
  refine ⟨settled?_congr rfl same fun target finalized => ?_,
    isReady_congr fun waited waits => by rw [same waited waits]⟩
  obtain ⟨kind, waits⟩ := wellFormed.targets node member target finalized
  rw [state_record, if_neg (apart (target, kind) waits)]

/-- An item that reaches a final state asks for an examination of its dependents only. -/
theorem Examined.record (wellFormed : execution.schedule.WellFormed) {queue : List ScheduledNode}
    (member : node ∈ execution.schedule.nodes)
    (open' : (execution.state node.item).isTerminal = false) {state : NodeState}
    (terminal : state.isTerminal = true)
    (examined : execution.Examined queue) :
    (execution.record node.item state).Examined
      (queue.filter (· ≠ node) ++ execution.dependents node.item) := by
  have stays : ∀ other ∈ execution.schedule.nodes,
      (execution.record node.item state).state other.item = .waiting →
      other.item ≠ node.item ∧ execution.state other.item = .waiting := by
    intro other _ waiting
    rw [state_record] at waiting
    split at waiting
    · rw [waiting] at terminal
      cases terminal
    next different => exact ⟨different, waiting⟩
  have outside : ∀ other : ScheduledNode, other.item ≠ node.item →
      other ∉ queue.filter (· ≠ node) ++ execution.dependents node.item →
      other ∉ queue ∧ other ∉ execution.dependents node.item := by
    intro other different absent
    rw [List.mem_append, not_or] at absent
    refine ⟨fun queued => absent.1 (List.mem_filter.mpr ⟨queued, ?_⟩), absent.2⟩
    exact decide_eq_true fun same => different (same ▸ rfl)
  refine ⟨?_, ?_, ?_⟩
  · exact pending_record_terminal wellFormed.distinct (Schedule.mem_items member) open' terminal
      examined.pending
  · intro other present waiting absent
    obtain ⟨different, waited⟩ := stays other present waiting
    obtain ⟨unqueued, independent⟩ := outside other different absent
    rw [(unaffected wellFormed present independent).1]
    exact examined.unsettled other present waited unqueued
  · intro other present waiting absent ready
    obtain ⟨different, waited⟩ := stays other present waiting
    obtain ⟨unqueued, independent⟩ := outside other different absent
    rw [(unaffected wellFormed present independent).2] at ready
    exact mem_ready_record different (examined.offered other present waited unqueued ready)

/-- How many nodes would be queued if every waiting item settled. -/
def outstanding (execution : Execution) : Nat :=
  ((execution.schedule.items.filter fun item => decide (execution.state item = .waiting)).map
    fun item => (execution.dependents item).length).sum

theorem outstanding_record {item : WorkItem} (scheduled : item ∈ execution.schedule.items)
    (waiting : execution.state item = .waiting) {state : NodeState}
    (terminal : state.isTerminal = true) :
    (execution.record item state).outstanding + (execution.dependents item).length ≤
      execution.outstanding := by
  refine Counting.sum_filter_add_le _ (fun other still => ?_) scheduled (decide_eq_true waiting) ?_
  · rw [decide_eq_true_eq, state_record] at still
    split at still
    · rw [still] at terminal
      cases terminal
    · exact decide_eq_true still
  · rw [state_record, if_pos rfl, decide_eq_false_iff_not]
    rintro rfl
    cases terminal

theorem outstanding_le (distinct : execution.schedule.items.Nodup) :
    execution.outstanding ≤ execution.schedule.constraintCount := by
  have bound := Counting.sum_length_filter_le
    (distinct.filter fun item => decide (execution.state item = .waiting))
    execution.schedule.nodes fun node => node.predecessors.map (·.1)
  have counted : (execution.schedule.nodes.flatMap fun node => node.predecessors.map (·.1)).length
      = execution.schedule.constraintCount := by
    simp [Schedule.constraintCount, List.length_flatMap]
  rw [counted] at bound
  refine Nat.le_trans (Nat.le_of_eq ?_) bound
  unfold outstanding dependents
  congr 2
  funext item
  congr 1
  refine List.filter_congr fun node _ => ?_
  rw [Bool.eq_iff_iff, List.any_eq_true, decide_eq_true_eq, List.mem_map]
  exact exists_congr fun waited => and_congr_right fun _ => decide_eq_true_iff

theorem Examined.mono {queue larger : List ScheduledNode} (examined : execution.Examined queue)
    (queued : queue ⊆ larger) : execution.Examined larger where
  pending := examined.pending
  unsettled node member waiting absent :=
    examined.unsettled node member waiting fun present => absent (queued present)
  offered node member waiting absent :=
    examined.offered node member waiting fun present => absent (queued present)

theorem settled?_markReady (item : WorkItem) :
    (execution.markReady item).settled? node = execution.settled? node :=
  settled?_congr (settles_markReady execution item).isAborted
    (fun waited _ => state_markReady _ _ waited.1) fun target _ => state_markReady _ _ target

theorem isReady_markReady (item : WorkItem) :
    (execution.markReady item).isReady node = execution.isReady node :=
  isReady_congr fun waited _ => by rw [state_markReady]

theorem Examined.markReady {queue : List ScheduledNode} (examined : execution.Examined queue)
    (item : WorkItem) : (execution.markReady item).Examined queue := by
  have frame := settles_markReady execution item
  have states : ∀ other, (execution.markReady item).state other = execution.state other :=
    fun other => state_markReady execution item other
  refine ⟨?_, ?_, ?_⟩
  · rw [pending_markReady, examined.pending]
    unfold unfinished
    simp only [frame.schedule, states]
  · intro node member waiting absent
    rw [frame.schedule] at member
    rw [states] at waiting
    rw [settled?_markReady]
    exact examined.unsettled node member waiting absent
  · intro node member waiting absent ready
    rw [frame.schedule] at member
    rw [states] at waiting
    rw [isReady_markReady] at ready
    exact mem_ready_markReady.mpr (.inr (examined.offered node member waiting absent ready))

/-- The front of the queue need not be examined if it has been. -/
theorem Examined.advance {queue : List ScheduledNode}
    (examined : execution.Examined (node :: queue))
    (settled : execution.state node.item = .waiting → execution.settled? node = none ∧
      (execution.isReady node = true → node.item ∈ execution.ready)) :
    execution.Examined queue := by
  refine ⟨examined.pending, ?_, ?_⟩
  · intro other member waiting absent
    by_cases same : other = node
    · subst same
      exact (settled waiting).1
    · exact examined.unsettled other member waiting (by simp [same, absent])
  · intro other member waiting absent
    by_cases same : other = node
    · subst same
      exact (settled waiting).2
    · exact examined.offered other member waiting (by simp [same, absent])

theorem outstanding_markReady (item : WorkItem) :
    (execution.markReady item).outstanding = execution.outstanding := by
  unfold outstanding dependents
  simp only [state_markReady, (settles_markReady execution item).schedule]

/-- What one step of propagation does with the node in front: the execution that it leaves, and
the nodes that it queues. -/
inductive Examines (execution : Execution) (node : ScheduledNode) :
    Execution → List ScheduledNode → Prop where
  | passes : execution.state node.item ≠ .waiting → Examines execution node execution []
  | settles {state : NodeState} : execution.state node.item = .waiting →
      execution.settled? node = some state →
      Examines execution node (execution.record node.item state) (execution.dependents node.item)
  | offers : execution.state node.item = .waiting → execution.settled? node = none →
      execution.isReady node = true → Examines execution node (execution.markReady node.item) []
  | waits : execution.state node.item = .waiting → execution.settled? node = none →
      execution.isReady node = false → Examines execution node execution []

theorem propagate_cons (execution : Execution) (node : ScheduledNode) (steps : Nat)
    (queue : List ScheduledNode) :
    ∃ next added, Examines execution node next added ∧
      propagate (steps + 1) (node :: queue) execution = propagate steps (queue ++ added) next := by
  by_cases waiting : execution.state node.item = .waiting
  · cases settled : execution.settled? node with
    | some state =>
        refine ⟨_, _, .settles waiting settled, ?_⟩
        simp [propagate, waiting, settled]
    | none =>
        cases ready : execution.isReady node with
        | true =>
            refine ⟨_, _, .offers waiting settled ready, ?_⟩
            simp [propagate, waiting, settled, ready]
        | false =>
            refine ⟨_, _, .waits waiting settled ready, ?_⟩
            simp [propagate, waiting, settled, ready]
  · refine ⟨_, _, .passes waiting, ?_⟩
    simp [propagate, waiting]

section Examines

variable {added : List ScheduledNode} (examines : execution.Examines node after added)
include examines

theorem Examines.frame : Settles execution after := by
  cases examines with
  | passes => exact .refl execution
  | settles waiting settled => exact settles_record waiting (isTerminal_of_settled? settled)
  | offers => exact settles_markReady execution node.item
  | waits => exact .refl execution

theorem Examines.added_subset : added ⊆ execution.schedule.nodes := by
  cases examines with
  | passes => exact List.nil_subset _
  | settles => exact List.filter_sublist.subset
  | offers => exact List.nil_subset _
  | waits => exact List.nil_subset _

theorem Examines.state_of_ne {item : WorkItem} (different : item ≠ node.item) :
    after.state item = execution.state item := by
  cases examines with
  | passes => rfl
  | settles => rw [state_record, if_neg different]
  | offers => exact state_markReady execution node.item item
  | waits => rfl

end Examines

/-- With enough steps, propagation examines every queued node, and whatever their settling
affects. -/
theorem propagate_sound {steps : Nat} {queue : List ScheduledNode}
    (wellFormed : execution.schedule.WellFormed) (scheduled : queue ⊆ execution.schedule.nodes)
    (examined : execution.Examined queue)
    (enough : queue.length + execution.outstanding ≤ steps) :
    Settles execution (propagate steps queue execution) ∧
      (propagate steps queue execution).Examined [] := by
  induction steps generalizing queue execution with
  | zero =>
      cases queue with
      | nil => exact ⟨.refl execution, examined⟩
      | cons node rest => simp at enough
  | succ steps ih =>
      cases queue with
      | nil => exact ⟨.refl execution, examined⟩
      | cons node rest =>
          obtain ⟨member, restScheduled⟩ := List.cons_subset.mp scheduled
          rw [List.length_cons] at enough
          obtain ⟨next, added, examines, same⟩ := propagate_cons execution node steps rest
          have frame := examines.frame
          have queued : rest ++ added ⊆ next.schedule.nodes := by
            rw [frame.schedule]
            exact List.append_subset.mpr ⟨restScheduled, examines.added_subset⟩
          have pass : next.Examined (rest ++ added) ∧
              (rest ++ added).length + next.outstanding ≤ steps := by
            cases examines with
            | passes started =>
                rw [List.append_nil]
                exact ⟨examined.advance fun waiting => absurd waiting started, by omega⟩
            | @settles state waiting settled =>
                have terminal := isTerminal_of_settled? settled
                have fewer := outstanding_record (Schedule.mem_items member) waiting terminal
                constructor
                · refine (examined.record wellFormed member (by rw [waiting]; rfl) terminal).mono ?_
                  intro other present
                  simp only [List.mem_append, List.mem_filter, List.mem_cons,
                    decide_eq_true_eq] at present ⊢
                  grind
                · rw [List.length_append]
                  omega
            | offers waiting unsettled ready =>
                rw [List.append_nil, outstanding_markReady]
                refine ⟨?_, by omega⟩
                exact (examined.markReady node.item).advance fun _ =>
                  ⟨(settled?_markReady node.item).trans unsettled,
                    fun _ => mem_ready_markReady.mpr (.inl rfl)⟩
            | waits waiting unsettled unready =>
                rw [List.append_nil]
                refine ⟨?_, by omega⟩
                exact examined.advance fun _ =>
                  ⟨unsettled, fun ready => absurd ready (by simp [unready])⟩
          obtain ⟨settles, done⟩ := ih (frame.schedule ▸ wellFormed) queued pass.1 pass.2
          rw [same]
          exact ⟨frame.trans settles, done⟩

/-- The step bound of an examination is always enough. -/
theorem reexamine_sound (execution : Execution) {nodes : List ScheduledNode}
    (wellFormed : execution.schedule.WellFormed) (scheduled : nodes ⊆ execution.schedule.nodes)
    (examined : execution.Examined nodes) :
    Settles execution (execution.reexamine nodes) ∧ (execution.reexamine nodes).Examined [] :=
  propagate_sound wellFormed scheduled examined
    (Nat.add_le_add_left (outstanding_le wellFormed.distinct) _)

end Execution

end TaskPlanner
