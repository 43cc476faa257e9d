import TaskPlanner.Proofs.Execution.Settlement

/-! What one call does to an execution. Between two calls nothing is left to examine, and a
call moves the state of an item only forward. -/

set_option autoImplicit false

namespace TaskPlanner

/-- The changes of state that one call may make. -/
inductive NodeState.Moves : NodeState → NodeState → Prop where
  | stays (state : NodeState) : Moves state state
  | starts : Moves .waiting .running
  | ends (outcome : TaskOutcome) : Moves .running (.ofOutcome outcome)
  | settles {state : NodeState} : state.isTerminal = true → Moves .waiting state

theorem NodeState.Moves.eq_of_isTerminal {before after : NodeState} (moves : before.Moves after)
    (terminal : before.isTerminal = true) : after = before := by
  cases moves with
  | stays => rfl
  | starts => cases terminal
  | ends => cases terminal
  | settles => cases terminal

theorem NodeState.Moves.ne_waiting {before after : NodeState} (moves : before.Moves after)
    (started : before ≠ .waiting) : after ≠ .waiting := by
  cases moves with
  | stays => exact started
  | starts => exact absurd rfl started
  | ends outcome => cases outcome <;> exact NodeState.noConfusion
  | settles => exact absurd rfl started

theorem NodeState.Moves.eq_waiting {before after : NodeState} (moves : before.Moves after)
    (waiting : after = .waiting) : before = .waiting := by
  by_contra started
  exact moves.ne_waiting started waiting

theorem NodeState.isTerminal_ofOutcome (outcome : TaskOutcome) :
    (NodeState.ofOutcome outcome).isTerminal = true := by
  cases outcome <;> rfl

/-- Two changes of state come to one: a start is followed by an end, and an end by nothing. -/
theorem NodeState.Moves.trans {before middle after : NodeState} (first : before.Moves middle)
    (second : middle.Moves after) : before.Moves after := by
  cases first with
  | stays => exact second
  | starts =>
      cases second with
      | stays => exact .starts
      | ends outcome => exact .settles (isTerminal_ofOutcome outcome)
  | ends outcome =>
      rw [second.eq_of_isTerminal (isTerminal_ofOutcome outcome)]
      exact .ends outcome
  | settles terminal =>
      rw [second.eq_of_isTerminal terminal]
      exact .settles terminal

theorem NodeState.ne_waiting_of_isTerminal {state : NodeState} (terminal : state.isTerminal = true) :
    state ≠ .waiting := by
  rintro rfl
  cases terminal

theorem NodeState.isTerminal_of_ne {state : NodeState} (started : state ≠ .waiting)
    (stopped : state ≠ .running) : state.isTerminal = true := by
  cases state with
  | waiting => exact absurd rfl started
  | running => exact absurd rfl stopped
  | _ => rfl

theorem NodeState.isLeftOut_of_isExecuted {state : NodeState} (executed : state.isExecuted = true) :
    state.isLeftOut = false := by
  cases state <;> first | rfl | cases executed

theorem NodeState.isExecuted_or_isLeftOut {state : NodeState} (terminal : state.isTerminal = true) :
    state.isExecuted = true ∨ state.isLeftOut = true := by
  cases state <;> first | exact .inl rfl | exact .inr rfl | cases terminal

/-- An item is only left out while it waits. -/
theorem NodeState.Moves.eq_of_isLeftOut {before after : NodeState} (moves : before.Moves after)
    (started : before ≠ .waiting) (leftOut : after.isLeftOut = true) : after = before := by
  cases moves with
  | stays => rfl
  | starts => exact absurd rfl started
  | ends outcome => cases outcome <;> cases leftOut
  | settles => exact absurd rfl started

namespace Execution

variable {execution before after : Execution} {locks table : LockTable} {node : ScheduledNode}

/-- What holds of an execution between two calls. -/
structure Valid (execution : Execution) : Prop where
  wellFormed : execution.schedule.WellFormed
  examined : execution.Examined []
  preferred : execution.preferred ⊆ execution.schedule.nodes

theorem Valid.isTerminal_of_pending (valid : execution.Valid) (completed : execution.pending = 0)
    (member : node ∈ execution.schedule.nodes) :
    (execution.state node.item).isTerminal = true := by
  have unfinished : execution.unfinished = 0 := valid.examined.pending ▸ completed
  have ended := List.countP_eq_zero.mp unfinished node.item (Schedule.mem_items member)
  simpa using ended

/-- A finalizer waits for all its targets, so they have ended when it can start. -/
theorem Valid.isTerminal_of_finalizes (valid : execution.Valid)
    (member : node ∈ execution.schedule.nodes) (ready : execution.isReady node = true)
    {target : WorkItem} (finalizes : target ∈ node.finalizes) :
    (execution.state target).isTerminal = true := by
  obtain ⟨kind, waits⟩ := valid.wellFormed.targets node member target finalizes
  exact isTerminal_of_isSatisfied (isReady_iff.mp ready _ waits)

theorem Settles.moves (settles : Settles before after) (item : WorkItem) :
    NodeState.Moves (before.state item) (after.state item) := by
  rcases settles.moved item with same | ⟨waiting, terminal⟩
  · rw [same]
    exact .stays _
  · rw [waiting]
    exact .settles terminal

theorem Settles.valid (settles : Settles before after) (wellFormed : before.schedule.WellFormed)
    (preferred : before.preferred ⊆ before.schedule.nodes) (examined : after.Examined []) :
    after.Valid where
  wellFormed := settles.schedule ▸ wellFormed
  examined := examined
  preferred := by rw [settles.preferred, settles.schedule]; exact preferred

theorem examined_all (counted : execution.pending = execution.unfinished) :
    execution.Examined execution.schedule.nodes :=
  ⟨counted, fun _ member _ absent => absurd member absent,
    fun _ member _ absent => absurd member absent⟩

theorem valid_start {schedule : Schedule} (wellFormed : schedule.WellFormed) (name : String)
    (policy : FailurePolicy) (handlers : List String) :
    (start name schedule policy handlers).Valid ∧
      (start name schedule policy handlers).schedule = schedule ∧
      ∀ item, (start name schedule policy handlers).state item = .waiting ∨
        ((start name schedule policy handlers).state item).isTerminal = true := by
  let fresh : Execution := { name, schedule, policy, handlers, pending := schedule.nodes.length }
  have counted : fresh.pending = fresh.unfinished := by
    show schedule.nodes.length = schedule.items.countP fun _ => true
    rw [List.countP_true, Schedule.items, List.length_map]
  obtain ⟨settles, examined⟩ := reexamine_sound fresh wellFormed
    (List.Subset.refl schedule.nodes) (examined_all counted)
  exact ⟨settles.valid wellFormed (List.nil_subset _) examined, settles.schedule,
    fun item => (settles.moved item).imp id And.right⟩

/-! ## Selecting -/

theorem takePreferred_sound {queue rest : List ScheduledNode}
    (taken : execution.takePreferred locks queue = some (node, rest)) :
    node ∈ queue ∧ execution.canStart locks node = true ∧ rest ⊆ queue := by
  induction queue with
  | nil => cases taken
  | cons head tail ih =>
      unfold takePreferred at taken
      split at taken
      next startable =>
        cases taken
        exact ⟨List.mem_cons_self, startable, List.subset_cons_self _ _⟩
      next =>
        obtain ⟨member, startable, subset⟩ := ih taken
        exact ⟨List.mem_cons_of_mem _ member, startable, List.subset_cons_of_subset _ subset⟩

/-- The ways in which a selection can end. -/
inductive Selects (execution : Execution) (locks : LockTable) :
    Selection → Execution → LockTable → Prop where
  | finished : execution.pending = 0 → Selects execution locks .finished execution locks
  | ready {node : ScheduledNode} {preferred : List ScheduledNode} :
      node ∈ execution.preferred ∨ node ∈ execution.schedule.nodes →
      execution.canStart locks node = true → preferred ⊆ execution.preferred →
      Selects execution locks (.ready node)
        ({ execution with preferred }.record node.item .running)
        (locks.acquire node.item node.locks)
  | waiting : execution.pending ≠ 0 →
      (∀ node ∈ execution.candidates, execution.canStart locks node = false) →
      Selects execution locks .waiting { execution with preferred := [] } locks

theorem selects {selection : Selection}
    (selected : execution.select locks = (selection, after, table)) :
    execution.Selects locks selection after table := by
  unfold select choose at selected
  split at selected
  next ended =>
    cases selected
    exact .finished ended
  next unended =>
    cases taken : execution.takePreferred locks execution.preferred with
    | some chosen =>
        obtain ⟨node, rest⟩ := chosen
        rw [taken] at selected
        cases selected
        obtain ⟨member, startable, subset⟩ := takePreferred_sound taken
        exact .ready (.inl member) startable subset
    | none =>
        rw [taken] at selected
        cases found : execution.candidates.find? (execution.canStart locks) with
        | some node =>
            simp only [found] at selected
            cases selected
            have member := List.mem_of_find?_eq_some found
            exact .ready (.inr (List.mem_filter.mp member).1) (List.find?_some found)
              (List.nil_subset _)
        | none =>
            simp only [found] at selected
            cases selected
            exact .waiting unended fun node member =>
              Bool.eq_false_iff.mpr (List.find?_eq_none.mp found node member)

theorem canStart_iff :
    execution.canStart locks node = true ↔ execution.state node.item = .waiting ∧
      execution.isReady node = true ∧ locks.areFreeFor node.item node.locks = true := by
  simp only [canStart, Bool.and_eq_true, decide_eq_true_eq, and_assoc]

/-- What does not tell a running item from a waiting one does not see an item start. -/
theorem state_start {β : Type} (view : NodeState → β) (blind : view .running = view .waiting)
    {item : WorkItem} (waiting : execution.state item = .waiting) (other : WorkItem) :
    view ((execution.record item .running).state other) = view (execution.state other) := by
  rw [state_record]
  split
  next same => rw [same, waiting, blind]
  next => rfl

/-- To everything that waits for it, an item that started looks like one that waits. -/
theorem unaffected_start {item : WorkItem} (waiting : execution.state item = .waiting) :
    (execution.record item .running).isReady node = execution.isReady node ∧
      (execution.settled? node = none →
        (execution.record item .running).settled? node = none) := by
  have ready : (execution.record item .running).isReady node = execution.isReady node :=
    isReady_congr fun waited _ =>
      state_start (isSatisfied waited.2) (by cases waited.2 <;> rfl) waiting waited.1
  have forced : (execution.record item .running).forced? node = execution.forced? node :=
    forced?_congr fun waited _ =>
      state_start (forcedBy waited.2) (by cases waited.2 <;> rfl) waiting waited.1
  have nothing : (execution.record item .running).hasNothingToFinalize node =
      execution.hasNothingToFinalize node :=
    hasNothingToFinalize_congr fun target _ =>
      state_start (fun state => state.isTerminal && !state.isExecuted) rfl waiting target
  have executed : execution.finalizesExecuted node = true →
      (execution.record item .running).finalizesExecuted node = true := by
    intro before
    obtain ⟨target, member, performed⟩ := List.any_eq_true.mp before
    refine List.any_eq_true.mpr ⟨target, member, ?_⟩
    rw [state_record]
    split
    · rfl
    · exact performed
  refine ⟨ready, fun unsettled => ?_⟩
  rw [settled?_eq_none_iff] at unsettled ⊢
  rw [forced, nothing, ready]
  exact ⟨fun aborted => executed (unsettled.1 aborted), unsettled.2⟩

theorem unfinished_start {item : WorkItem} (waiting : execution.state item = .waiting) :
    (execution.record item .running).unfinished = execution.unfinished := by
  refine List.countP_congr fun other _ => ?_
  rw [state_start (fun state => !state.isTerminal) rfl waiting other]

theorem Examined.start {item : WorkItem} (examined : execution.Examined [])
    (waiting : execution.state item = .waiting) :
    (execution.record item .running).Examined [] := by
  have stays : ∀ other, (execution.record item .running).state other = .waiting →
      other ≠ item ∧ execution.state other = .waiting := by
    intro other still
    rw [state_record] at still
    split at still
    · cases still
    next different => exact ⟨different, still⟩
  refine ⟨?_, ?_, ?_⟩
  · rw [unfinished_start waiting, ← examined.pending]
    simp only [Execution.record, NodeState.isTerminal, Bool.and_false, Bool.false_eq_true, if_false]
  · intro other member still absent
    exact (unaffected_start waiting).2
      (examined.unsettled other member (stays other.item still).2 absent)
  · intro other member still absent ready
    obtain ⟨different, before⟩ := stays other.item still
    rw [(unaffected_start waiting).1] at ready
    exact mem_ready_record different (examined.offered other member before absent ready)

theorem Examined.withPreferred {queue : List ScheduledNode} (examined : execution.Examined queue)
    (preferred : List ScheduledNode) : { execution with preferred }.Examined queue :=
  ⟨examined.pending, examined.unsettled, examined.offered⟩

theorem Valid.select {selection : Selection} (valid : execution.Valid)
    (selected : execution.select locks = (selection, after, table)) :
    after.Valid ∧ after.schedule = execution.schedule ∧
      ∀ item, NodeState.Moves (execution.state item) (after.state item) := by
  cases selects selected with
  | finished => exact ⟨valid, rfl, fun item => .stays _⟩
  | waiting =>
      exact ⟨⟨valid.wellFormed, valid.examined.withPreferred [], List.nil_subset _⟩, rfl,
        fun item => .stays _⟩
  | @ready node preferred listed startable subset =>
      obtain ⟨waiting, _, _⟩ := canStart_iff.mp startable
      have examined : ({ execution with preferred }.record node.item .running).Examined [] :=
        (valid.examined.withPreferred preferred).start waiting
      refine ⟨⟨valid.wellFormed, examined, List.Subset.trans subset valid.preferred⟩, rfl,
        fun item => ?_⟩
      rw [state_record]
      split
      next same => rw [same, waiting]; exact .starts
      next => exact .stays _

/-! ## Finishing -/

/-- An item that ends affects its dependents only, unless it aborts the execution. -/
theorem settleAfter_sound (execution : Execution) (item : WorkItem) (outcome : TaskOutcome)
    (wellFormed : execution.schedule.WellFormed)
    (examined : execution.Examined (execution.dependents item)) :
    ∃ base, Settles base (execution.settleAfter item outcome) ∧
      (execution.settleAfter item outcome).Examined [] ∧ base.schedule = execution.schedule ∧
      base.preferred = execution.preferred ∧ ∀ item, base.state item = execution.state item := by
  unfold settleAfter
  split
  · obtain ⟨settles, done⟩ := reexamine_sound
      { execution with isAborted := true } wellFormed
      (List.Subset.refl execution.schedule.nodes) (examined_all examined.pending)
    exact ⟨_, settles, done, rfl, rfl, fun _ => rfl⟩
  · obtain ⟨settles, done⟩ := reexamine_sound execution wellFormed
      (List.filter_sublist.subset : execution.dependents item ⊆ _) examined
    exact ⟨_, settles, done, rfl, rfl, fun _ => rfl⟩

/-- The ways in which the report of an outcome can end: nothing changes, or the node ends, and
some waiting items with it. -/
theorem Valid.finishNode_cases {outcome : TaskOutcome} {notifications : List Notification}
    (valid : execution.Valid) (member : node ∈ execution.schedule.nodes)
    (finished : execution.finishNode locks node outcome = (after, table, notifications)) :
    (execution.state node.item ≠ .running ∧ after = execution ∧ table = locks) ∨
    (execution.state node.item = .running ∧ table = locks.release node.item node.locks ∧
      after.Valid ∧ after.schedule = execution.schedule ∧
      ∀ item, let recorded := (execution.record node.item (.ofOutcome outcome)).state item
        after.state item = recorded ∨
          recorded = .waiting ∧ (after.state item).isTerminal = true) := by
  unfold Execution.finishNode at finished
  split at finished
  next idle =>
    cases finished
    exact .inl ⟨idle, rfl, rfl⟩
  next started =>
    cases finished
    have running := not_not.mp started
    have recorded := valid.examined.record valid.wellFormed member (by rw [running]; rfl)
      (NodeState.isTerminal_ofOutcome outcome)
    obtain ⟨base, settles, examined, schedule, preferred, states⟩ :=
      settleAfter_sound (execution.record node.item (.ofOutcome outcome)) node.item outcome
        valid.wellFormed recorded
    have scheduleKept := settles.schedule.trans schedule
    refine .inr ⟨running, rfl, ⟨?_, examined.withPreferred _, ?_⟩, scheduleKept, fun item => ?_⟩
    · exact scheduleKept ▸ valid.wellFormed
    · refine List.append_subset.mpr ⟨?_, List.filter_sublist.subset⟩
      rw [settles.preferred, preferred, scheduleKept]
      exact valid.preferred
    · rw [← states]
      exact settles.moved item

theorem Valid.finishNode {outcome : TaskOutcome} {notifications : List Notification}
    (valid : execution.Valid) (member : node ∈ execution.schedule.nodes)
    (finished : execution.finishNode locks node outcome = (after, table, notifications)) :
    after.Valid ∧ after.schedule = execution.schedule ∧
      ∀ item, NodeState.Moves (execution.state item) (after.state item) := by
  rcases valid.finishNode_cases member finished with
    ⟨_, rfl, _⟩ | ⟨running, _, afterValid, schedule, moved⟩
  · exact ⟨valid, rfl, fun item => .stays _⟩
  · refine ⟨afterValid, schedule, fun item => ?_⟩
    have moved := moved item
    rw [state_record] at moved
    by_cases same : item = node.item
    · rw [if_pos same] at moved
      rw [same, running, ← same]
      rcases moved with ended | ⟨waiting, _⟩
      · rw [ended]
        exact .ends outcome
      · cases outcome <;> cases waiting
    · rw [if_neg same] at moved
      rcases moved with stayed | ⟨waiting, terminal⟩
      · rw [stayed]
        exact .stays _
      · rw [waiting]
        exact .settles terminal

/-! ## Stopping -/

theorem mem_itemsIn {item : WorkItem} {state : NodeState} :
    item ∈ execution.itemsIn state ↔
      item ∈ execution.schedule.items ∧ execution.state item = state := by
  simp [itemsIn]

theorem foldl_notRun_sound (execution : Execution) {items : List WorkItem} (distinct : items.Nodup)
    (wellFormed : execution.schedule.WellFormed) (scheduled : items ⊆ execution.schedule.items)
    (waiting : ∀ item ∈ items, execution.state item = .waiting)
    (counted : execution.pending = execution.unfinished) :
    ∃ last, items.foldl (fun current item => current.record item .notRun) execution = last ∧
      Settles execution last ∧ last.pending = last.unfinished ∧
      ∀ item, last.state item = if item ∈ items then .notRun else execution.state item := by
  induction items generalizing execution with
  | nil => exact ⟨execution, rfl, .refl execution, counted, fun item => by simp⟩
  | cons head rest ih =>
      obtain ⟨absent, restDistinct⟩ := List.nodup_cons.mp distinct
      obtain ⟨headScheduled, restScheduled⟩ := List.cons_subset.mp scheduled
      have headWaiting := waiting head List.mem_cons_self
      obtain ⟨last, folded, settles, lastCounted, states⟩ := ih
        (execution.record head .notRun) restDistinct wellFormed restScheduled
        (fun item member => by
          have different : item ≠ head := fun same => absent (same ▸ member)
          rw [state_record, if_neg different]
          exact waiting item (List.mem_cons_of_mem _ member))
        (pending_record_terminal wellFormed.distinct headScheduled (by rw [headWaiting]; rfl) rfl
          counted)
      refine ⟨last, folded, (settles_record headWaiting rfl).trans settles, lastCounted,
        fun item => ?_⟩
      rw [states, state_record]
      by_cases same : item = head <;> by_cases later : item ∈ rest <;> simp [same, later]

/-- What holds of a closed execution, and of one that just stopped, holds after closing if it stays
while waiting items are left out. -/
theorem close_induction (property : Execution → Prop)
    (closed : execution.isClosed = true → property execution)
    (stopped : property { execution with isClosed := true, isAborted := true })
    (record : ∀ current item, execution.state item = .waiting → property current →
      property (current.record item .notRun)) : property execution.close := by
  unfold Execution.close
  split
  next already => exact closed already
  next =>
    have waiting : ∀ item ∈ execution.itemsIn .waiting, execution.state item = .waiting :=
      fun item member => (mem_itemsIn.mp member).2
    generalize ({ execution with isClosed := true, isAborted := true } : Execution) = current
      at stopped ⊢
    generalize execution.itemsIn .waiting = items at waiting ⊢
    induction items generalizing current with
    | nil => exact stopped
    | cons item rest ih =>
        exact ih (current.record item .notRun)
          (record current item (waiting item List.mem_cons_self) stopped)
          fun other member => waiting other (List.mem_cons_of_mem _ member)

theorem close_of_isClosed (closed : execution.isClosed = true) : execution.close = execution := by
  unfold Execution.close
  rw [if_pos closed]

theorem isClosed_close (execution : Execution) : execution.close.isClosed = true :=
  close_induction (·.isClosed = true) id rfl fun _ _ _ => id

theorem state_close (execution : Execution) (item : WorkItem) :
    execution.close.state item = execution.state item ∨
      execution.state item = .waiting ∧ execution.close.state item = .notRun := by
  refine close_induction (fun current => current.state item = execution.state item ∨
    execution.state item = .waiting ∧ current.state item = .notRun)
    (fun _ => .inl rfl) (.inl rfl) ?_
  intro current other waiting before
  rw [state_record]
  split
  next same => exact .inr ⟨same ▸ waiting, rfl⟩
  next => exact before

theorem running_close (execution : Execution) (item : WorkItem) :
    execution.close.state item = .running ↔ execution.state item = .running := by
  rcases execution.state_close item with same | ⟨waiting, leftOut⟩
  · rw [same]
  · rw [waiting, leftOut]
    exact iff_of_false NodeState.noConfusion NodeState.noConfusion

/-- Closing an execution leaves out what waits, and nothing waits afterwards. -/
theorem Valid.leaves_out (valid : execution.Valid) (unclosed : execution.isClosed = false) :
    Settles { execution with isClosed := true, isAborted := true } execution.close ∧
      execution.close.pending = execution.close.unfinished ∧
      ∀ item ∈ execution.schedule.items, execution.close.state item ≠ .waiting := by
  obtain ⟨last, folded, settles, counted, states⟩ := @foldl_notRun_sound
    { execution with isClosed := true, isAborted := true } (execution.itemsIn .waiting)
    (valid.wellFormed.distinct.filter _) valid.wellFormed List.filter_sublist.subset
    (fun item member => (mem_itemsIn.mp member).2) valid.examined.pending
  have closed : execution.close = last := by
    unfold Execution.close
    rw [if_neg (Bool.eq_false_iff.mp unclosed), folded]
  rw [closed]
  refine ⟨settles, counted, fun item scheduled still => ?_⟩
  rw [states] at still
  split at still
  · cases still
  next absent => exact absent (mem_itemsIn.mpr ⟨scheduled, still⟩)

theorem Valid.close (valid : execution.Valid) :
    execution.close.Valid ∧ execution.close.schedule = execution.schedule ∧
      ∀ item, NodeState.Moves (execution.state item) (execution.close.state item) := by
  cases closed : execution.isClosed with
  | true =>
      rw [close_of_isClosed closed]
      exact ⟨valid, rfl, fun item => .stays _⟩
  | false =>
      obtain ⟨settles, counted, ended⟩ := valid.leaves_out closed
      have idle : ∀ node ∈ execution.close.schedule.nodes,
          execution.close.state node.item ≠ .waiting := by
        intro node member
        rw [settles.schedule] at member
        exact ended node.item (Schedule.mem_items member)
      have examined : execution.close.Examined [] :=
        ⟨counted, fun node member still => absurd still (idle node member),
          fun node member still => absurd still (idle node member)⟩
      exact ⟨settles.valid valid.wellFormed valid.preferred examined, settles.schedule,
        settles.moves⟩

end Execution

end TaskPlanner
