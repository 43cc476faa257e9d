import TaskPlanner.Proofs.Execution.HandOut
import TaskPlanner.Proofs.Execution.Progress
import TaskPlanner.Session

/-! All that is locked in a session is locked by running items. An execution in which nothing
runs can therefore only be kept waiting by another one. -/

set_option autoImplicit false

namespace TaskPlanner

namespace Execution

variable {execution after : Execution} {locks table : LockTable} {entry : String × WorkItem}

/-- A running node of the execution has the lock. -/
def Owns (execution : Execution) (entry : String × WorkItem) : Prop :=
  ∃ node ∈ execution.schedule.nodes, node.item = entry.2 ∧ entry.1 ∈ node.locks ∧
    execution.state node.item = .running

theorem Owns.of_running (owns : execution.Owns entry)
    (schedule : after.schedule = execution.schedule)
    (running : execution.state entry.2 = .running → after.state entry.2 = .running) :
    after.Owns entry := by
  obtain ⟨node, member, same, listed, runs⟩ := owns
  exact ⟨node, schedule ▸ member, same, listed, same ▸ running (same ▸ runs)⟩

/-- A selection locks for the node that it hands out, and lets nothing stop. -/
theorem Valid.owns_select (valid : execution.Valid) {selection : Selection}
    (selected : execution.select locks = (selection, after, table)) :
    (entry ∈ table.held → entry ∈ locks.held ∨ after.Owns entry) ∧
      (execution.Owns entry → after.Owns entry) := by
  have schedule := (valid.select selected).2.1
  cases selects selected with
  | finished => exact ⟨.inl, id⟩
  | waiting => exact ⟨.inl, id⟩
  | @ready node preferred listed startable subset =>
      refine ⟨fun held => ?_, fun owns => owns.of_running schedule fun running => ?_⟩
      · refine (LockTable.mem_held_acquire held).imp id fun taken => ?_
        refine ⟨node, listed.elim (valid.preferred ·) id, taken.2.symm, taken.1, ?_⟩
        rw [state_record, if_pos rfl]
      · rw [state_record]
        split
        · rfl
        · exact running

/-- The report of an outcome gives up the locks of the item, and lets no other item stop. -/
theorem Valid.owns_finish (valid : execution.Valid) {item : WorkItem} {outcome : TaskOutcome}
    {notifications : List Notification}
    (finished : execution.finish? locks item outcome = some (after, table, notifications)) :
    (entry ∈ table.held → entry ∈ locks.held) ∧
      (entry ∈ table.held → execution.Owns entry → after.Owns entry) := by
  obtain ⟨node, member, _, finishes⟩ := finishNode_of_finish? finished
  rcases valid.finishNode_cases member finishes with
    ⟨_, rfl, rfl⟩ | ⟨_, rfl, _, schedule, moved⟩
  · exact ⟨id, fun _ => id⟩
  · refine ⟨fun held => (LockTable.mem_held_release.mp held).1, fun held owns => ?_⟩
    have kept := (LockTable.mem_held_release.mp held).2
    obtain ⟨holder, present, same, listed, _⟩ := owns
    have different : entry.2 ≠ node.item := by
      intro own
      cases valid.wellFormed.node_unique present member (same.trans own)
      exact kept ⟨listed, own⟩
    refine Owns.of_running ⟨holder, present, same, listed, ‹_›⟩ schedule fun running => ?_
    have moved := moved entry.2
    rw [state_record, if_neg different, running] at moved
    rcases moved with stayed | ⟨impossible, _⟩
    · exact stayed
    · cases impossible

end Execution

namespace Session

variable {session after : Session}

/-- The sessions that calls make of a new session. Between the calls the plan may change in any
way. The table of locks is modelled for one plan that is used again: it takes owners by their items,
which mean the same only as long as each plan continues the catalog of the one before it. -/
inductive Reachable : Session → Prop where
  | new {plan : Plan} : plan.Reachable → Reachable { plan }
  | replan {session : Session} {plan : Plan} :
      Reachable session → plan.Reachable → Reachable { session with plan }
  | finalize {session : Session} : Reachable session → Reachable session.finalize.2
  | close {session : Session} : Reachable session → Reachable session.close
  | select {session after : Session} {number : Nat} {selection : Selection} :
      Reachable session → session.select number = some (selection, after) → Reachable after
  | finish {session after : Session} {number : Nat} {item : WorkItem} {outcome : TaskOutcome}
      {result : Except PlanError (List Notification)} :
      Reachable session → session.finish number item outcome = some (result, after) →
      Reachable after
  | stop {session : Session} (number : Nat) : Reachable session → Reachable (session.stop number)

/-- What holds of a session between two calls. -/
structure Valid (session : Session) : Prop where
  plan : session.plan.Reachable
  executions : ∀ execution ∈ session.executions, execution.Valid
  held : ∀ entry ∈ session.locks.held, ∃ (number : Nat) (execution : Execution),
    session.executions[number]? = some execution ∧ execution.Owns entry

theorem Valid.executions_at (valid : session.Valid) {number : Nat} {execution : Execution}
    (present : session.executions[number]? = some execution) : execution.Valid :=
  valid.executions execution (List.mem_of_getElem? present)

/-- A call of one execution leaves the session valid if it leaves that execution valid, and
everything locked remains somebody's. -/
theorem Valid.set (valid : session.Valid) {number : Nat} {before execution : Execution}
    {locks : LockTable} (present : session.executions[number]? = some before)
    (executionValid : execution.Valid)
    (held : ∀ entry ∈ locks.held, entry ∈ session.locks.held ∨ execution.Owns entry)
    (owns : ∀ entry ∈ locks.held, before.Owns entry → execution.Owns entry) :
    Valid { session with executions := session.executions.set number execution, locks } := by
  have inside : number < session.executions.length := (List.getElem?_eq_some_iff.mp present).1
  have replaced : (session.executions.set number execution)[number]? = some execution := by
    rw [List.getElem?_set_self inside]
  refine ⟨valid.plan, fun other member => ?_, fun entry locked => ?_⟩
  · rcases List.mem_or_eq_of_mem_set member with kept | rfl
    · exact valid.executions other kept
    · exact executionValid
  · rcases held entry locked with before | now
    · obtain ⟨other, holder, listed, owned⟩ := valid.held entry before
      by_cases same : other = number
      · subst same
        rw [present] at listed
        cases listed
        exact ⟨other, execution, replaced, owns entry locked owned⟩
      · refine ⟨other, holder, ?_, owned⟩
        rw [List.getElem?_set_ne (Ne.symm same)]
        exact listed
    · exact ⟨number, execution, replaced, now⟩

theorem Valid.set_close (valid : session.Valid) {number : Nat} {before : Execution}
    (present : session.executions[number]? = some before) :
    Valid { session with executions := session.executions.set number before.close } := by
  have beforeValid := valid.executions_at present
  exact valid.set present beforeValid.close.1 (fun _ => .inl) fun _ _ owned =>
    owned.of_running beforeValid.close.2.1 (Execution.running_close _ _).mpr

theorem Valid.finalize (valid : session.Valid) : session.finalize.2.Valid := by
  unfold Session.finalize
  split
  · exact valid
  · dsimp only
    split
    next error failed => exact ⟨valid.plan.finalize, valid.executions, valid.held⟩
    next schedule finalized =>
      refine ⟨valid.plan.finalize, fun execution member => ?_, fun entry locked => ?_⟩
      · rcases List.mem_append.mp member with old | new
        · exact valid.executions execution old
        · cases List.mem_singleton.mp new
          exact (Execution.valid_start (valid.plan.wellFormed_of_finalize finalized) _ _ _).1
      · obtain ⟨number, execution, present, owns⟩ := valid.held entry locked
        have inside := (List.getElem?_eq_some_iff.mp present).1
        exact ⟨number, execution, by rw [List.getElem?_append_left inside]; exact present, owns⟩

/-- Closing a session closes its last execution if the plan was handed out, and none otherwise. -/
theorem close_cases (session : Session) :
    (session.plan.isFinalized = true ∧ ∃ execution,
      session.executions[session.executions.length - 1]? = some execution ∧
      session.close = { session with
        plan := session.plan.close execution.executedItems
        executions := session.executions.set (session.executions.length - 1) execution.close }) ∨
    (session.plan.isFinalized = true → session.executions = []) ∧
      session.close = { session with plan := session.plan.close [] } := by
  unfold Session.close
  split
  next execution finalized last =>
    left
    refine ⟨finalized, execution, List.getLast?_eq_getElem? ▸ last, ?_⟩
    obtain ⟨initial, split⟩ := List.getLast?_eq_some_iff.mp last
    rw [split]
    simp
  next open' =>
    refine .inr ⟨fun finalized => ?_, rfl⟩
    cases last : session.executions.getLast? with
    | none => exact List.getLast?_eq_none_iff.mp last
    | some execution => exact (open' execution finalized last).elim

theorem Valid.close (valid : session.Valid) : session.close.Valid := by
  rcases session.close_cases with ⟨_, execution, present, closed⟩ | ⟨_, closed⟩
  · rw [closed]
    have next := valid.set_close present
    exact ⟨valid.plan.close _, next.executions, next.held⟩
  · rw [closed]
    exact ⟨valid.plan.close _, valid.executions, valid.held⟩

theorem Reachable.valid (reachable : session.Reachable) : session.Valid := by
  induction reachable with
  | new plan => exact ⟨plan, by simp, by simp⟩
  | replan _ plan ih => exact ⟨plan, ih.executions, ih.held⟩
  | finalize _ ih => exact ih.finalize
  | close _ ih => exact ih.close
  | @select session after number selection _ selected ih =>
      obtain ⟨execution, present, selects⟩ := Option.map_eq_some_iff.mp selected
      have executionValid := ih.executions_at present
      generalize outcome : execution.select session.locks = result at selects
      obtain ⟨chosen, next, locks⟩ := result
      cases selects
      exact ih.set present (executionValid.select outcome).1
        (fun entry => (executionValid.owns_select outcome).1)
        fun entry _ => (executionValid.owns_select outcome).2
  | @finish session after number item outcome result _ finished ih =>
      obtain ⟨execution, present, finishes⟩ := Option.map_eq_some_iff.mp finished
      have executionValid := ih.executions_at present
      split at finishes
      · cases finishes
        exact ih
      next next locks notifications done =>
        cases finishes
        exact ih.set present (executionValid.step (.finish done)).1
          (fun entry held => .inl ((executionValid.owns_finish done).1 held))
          fun entry => (executionValid.owns_finish done).2
  | @stop session number _ ih =>
      unfold Session.stop
      cases present : session.executions[number]? with
      | none =>
          rw [List.modify_eq_self (List.getElem?_eq_none_iff.mp present)]
          exact ih
      | some execution =>
          rw [List.modify_eq_set_getElem?, present]
          exact ih.set_close present

/-- No stall. An execution none of whose items run can only wait for another execution: if
nothing is locked by others, it hands out a node or is finished, and so it goes on to its end,
where everything has ended, with at most as many nodes as are scheduled. -/
theorem no_stall (reachable : session.Reachable) {number : Nat} {execution : Execution}
    (present : session.executions[number]? = some execution) (idle : execution.IsIdle)
    (alone : ∀ (other : Nat) (holder : Execution), other ≠ number →
      session.executions[other]? = some holder →
        ∀ entry ∈ session.locks.held, ¬ holder.Owns entry) :
    ((∃ node, (execution.select session.locks).1 = .ready node) ∨
      (execution.select session.locks).1 = .finished) ∧
    ∀ outcomeOf,
      let last := execution.drain session.locks outcomeOf
      last.isFinished = true ∧
        (∀ node ∈ execution.schedule.nodes, (last.execution.state node.item).isTerminal = true) ∧
        last.ran.length ≤ execution.schedule.nodes.length := by
  have valid := reachable.valid
  have executionValid := valid.executions_at present
  have unlocked : session.locks.held = [] := by
    refine List.eq_nil_iff_forall_not_mem.mpr fun entry held => ?_
    obtain ⟨other, holder, listed, owns⟩ := valid.held entry held
    by_cases same : other = number
    · subst same
      rw [present] at listed
      cases listed
      obtain ⟨node, member, _, _, running⟩ := owns
      exact idle node.item (Schedule.mem_items member) running
    · exact alone other holder same listed entry held owns
  refine ⟨?_, fun outcomeOf => executionValid.drain_finished idle unlocked outcomeOf⟩
  have progress := executionValid.select_ne_waiting idle unlocked
  cases chosen : (execution.select session.locks).1 with
  | ready node => exact .inl ⟨node, rfl⟩
  | waiting => exact absurd chosen progress
  | finished => exact .inr rfl

/-- A session with the two tasks of `Plan.pair`, once the first of them has succeeded. -/
def pairHalf : Session where
  plan := Plan.pair.finalize.plan
  executions := [Execution.pairHalf]

theorem reachable_pairHalf : pairHalf.Reachable := by
  have finalized := (Reachable.new Plan.reachable_pair).finalize
  have selected : (Session.finalize { plan := .pair }).2.select 0 =
      some (.ready { item := .task "compile", isEntry := true },
        { plan := Plan.pair.finalize.plan, executions := [Execution.pairRunning] }) := rfl
  have finished : Session.finish
      { plan := Plan.pair.finalize.plan, executions := [Execution.pairRunning] } 0
      (.task "compile") .success = some (.ok [], pairHalf) := rfl
  exact (finalized.select selected).finish finished

theorem no_stall_pair :
    Execution.pairHalf.IsIdle ∧
      (Execution.pairHalf.drain {} fun _ => .success).isFinished = true ∧
      (∀ node ∈ Schedule.pair.nodes,
        ((Execution.pairHalf.drain {} fun _ => .failed 1).execution.state node.item).isTerminal =
          true) ∧
      (Execution.pairHalf.drain {} fun _ => .failed 1).ran.length ≤ 2 := by
  have present : pairHalf.executions[0]? = some Execution.pairHalf := rfl
  have idle : Execution.pairHalf.IsIdle := by
    intro item member
    rcases List.mem_cons.mp member with rfl | rest
    · exact NodeState.noConfusion
    · cases List.mem_singleton.mp rest
      exact NodeState.noConfusion
  have progress := no_stall reachable_pairHalf present idle fun other holder different listed => by
    cases other with
    | zero => exact absurd rfl different
    | succ other => cases listed
  exact ⟨idle, (progress.2 fun _ => .success).1, (progress.2 fun _ => .failed 1).2⟩

end Session

end TaskPlanner
