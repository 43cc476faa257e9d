import TaskPlanner.Proofs.Session.Exclusion

/-! An execution that has a lock table for itself, or beside owners that are not scheduled in it. The
table says at any time which items run: a name is held by the running item that needs it, and by
nobody if there is none, or by whom it was held before. -/

set_option autoImplicit false

namespace TaskPlanner

/-! ## Holders -/

namespace LockTable

variable {locks : LockTable} {owner : WorkItem} {names : List String} {name : String}

theorem holder?_eq_some_iff (distinct : locks.IsDistinct) :
    locks.holder? name = some owner ↔ (name, owner) ∈ locks.held := by
  constructor
  · exact mem_held_of_holder?
  · intro held
    have present : (locks.holder? name).isSome := by
      unfold holder?
      rw [List.lookup_isSome_iff]
      exact ⟨(name, owner), held, by simp⟩
    obtain ⟨other, found⟩ := Option.isSome_iff_exists.mp present
    have same := List.inj_on_of_nodup_map distinct (mem_held_of_holder? found) held rfl
    cases same
    exact found

theorem holder?_enter_of_isFreeFor (free : locks.isFreeFor owner name = true) (other : String) :
    (locks.enter owner name).holder? other =
      if other = name then some owner else locks.holder? other := by
  by_cases same : other = name
  · rw [if_pos same, same]
    exact holder?_enter free
  · rw [if_neg same]
    unfold enter
    split
    · rfl
    · simp [holder?, List.lookup_cons, beq_false_of_ne same]

/-- An item that takes free names holds these, and all else stays as it was. -/
theorem holder?_acquire (free : locks.areFreeFor owner names = true) (name : String) :
    (locks.acquire owner names).holder? name =
      if name ∈ names then some owner else locks.holder? name := by
  induction names generalizing locks with
  | nil => rfl
  | cons head rest ih =>
      obtain ⟨headFree, restFree⟩ := List.forall_mem_cons.mp (List.all_eq_true.mp free)
      have entered : (locks.enter owner head).areFreeFor owner rest = true :=
        List.all_eq_true.mpr fun other member => isFreeFor_enter (restFree other member)
      have later := ih entered
      rw [holder?_enter_of_isFreeFor headFree] at later
      show ((locks.enter owner head).acquire owner rest).holder? name = _
      rw [later]
      by_cases here : name = head <;> by_cases behind : name ∈ rest <;> simp [here, behind]

/-- What an item gives up is held by nobody, and all else stays as it was. -/
theorem holder?_release (distinct : locks.IsDistinct) (name : String) :
    (locks.release owner names).holder? name =
      if name ∈ names ∧ locks.holder? name = some owner then none else locks.holder? name := by
  refine Option.ext fun other => ?_
  rw [holder?_eq_some_iff (isDistinct_release distinct), mem_held_release,
    ← holder?_eq_some_iff distinct]
  by_cases gone : name ∈ names ∧ locks.holder? name = some owner
  · rw [if_pos gone, gone.2]
    simp only [Option.some.injEq, reduceCtorEq, iff_false, not_and]
    rintro rfl kept
    exact kept gone.1 rfl
  · rw [if_neg gone, and_iff_left_iff_imp]
    rintro held ⟨listed, rfl⟩
    exact gone ⟨listed, held⟩

end LockTable

namespace Execution

variable {initial execution before after : Execution} {locks table : LockTable}

/-! ## Exact tables -/

/-- An execution and a lock table that nobody else uses, as calls leave the two. -/
inductive Alone (initial : Execution) : Execution → LockTable → Prop where
  | start : Alone initial initial {}
  | select {before after : Execution} {locks table : LockTable} {selection : Selection} :
      Alone initial before locks → before.select locks = (selection, after, table) →
      Alone initial after table
  | finish {before after : Execution} {locks table : LockTable} {item : WorkItem}
      {outcome : TaskOutcome} {notifications : List Notification} : Alone initial before locks →
      before.finish? locks item outcome = some (after, table, notifications) →
      Alone initial after table
  | close {before : Execution} {locks : LockTable} :
      Alone initial before locks → Alone initial before.close locks

/-- What is held is what running items need, and each name is held once. -/
structure HoldsExactly (execution : Execution) (locks : LockTable) : Prop where
  distinct : locks.IsDistinct
  owns : ∀ entry, entry ∈ locks.held ↔ execution.Owns entry

/-- Each name is held once. Running items hold what they need; all else was held in `base` before, and
what items not scheduled here held is held by them still. -/
structure HoldsBeside (base : LockTable) (execution : Execution) (locks : LockTable) : Prop where
  distinct : locks.IsDistinct
  owns : ∀ entry, execution.Owns entry → entry ∈ locks.held
  held : ∀ entry ∈ locks.held, entry ∈ base.held ∨ execution.Owns entry
  foreign : ∀ entry ∈ base.held, entry.2 ∉ execution.schedule.items → entry ∈ locks.held

theorem holdsExactly_iff : execution.HoldsExactly locks ↔ HoldsBeside {} execution locks := by
  constructor
  · intro exact
    exact ⟨exact.distinct, fun entry => (exact.owns entry).mpr,
      fun entry held => .inr ((exact.owns entry).mp held), by simp⟩
  · intro beside
    refine ⟨beside.distinct, fun entry => ⟨fun held => ?_, beside.owns entry⟩⟩
    exact (beside.held entry held).resolve_left List.not_mem_nil

theorem holdsBeside_start {schedule : Schedule} (wellFormed : schedule.WellFormed) (name : String)
    (policy : FailurePolicy) (handlers : List String) {base : LockTable}
    (distinct : base.IsDistinct) :
    HoldsBeside base (start name schedule policy handlers) base where
  distinct := distinct
  owns _ owns := absurd owns (not_owns_start wellFormed name policy handlers)
  held _ := .inl
  foreign _ held _ := held

theorem HoldsBeside.select {base : LockTable} (beside : HoldsBeside base execution locks)
    (valid : execution.Valid) {selection : Selection}
    (selected : execution.select locks = (selection, after, table)) :
    HoldsBeside base after table := by
  obtain ⟨distinct, keeps, owners⟩ := valid.owns_of_select selected beside.distinct
  refine ⟨distinct, fun entry owns => ?_, fun entry held => ?_, fun entry held foreign => ?_⟩
  · rcases owners entry owns with earlier | now
    · exact keeps entry (beside.owns entry earlier)
    · exact now
  · obtain ⟨holders, stays⟩ : (entry ∈ table.held → entry ∈ locks.held ∨ after.Owns entry) ∧
        (execution.Owns entry → after.Owns entry) := valid.owns_select selected
    rcases holders held with earlier | now
    · exact (beside.held entry earlier).imp_right stays
    · exact .inr now
  · rw [(valid.select selected).2.1] at foreign
    exact keeps entry (beside.foreign entry held foreign)

/-- An item that ends gives up what it holds, and nobody else does. -/
theorem HoldsBeside.finish {base : LockTable} (beside : HoldsBeside base execution locks)
    (valid : execution.Valid) {item : WorkItem} {outcome : TaskOutcome}
    {notifications : List Notification}
    (finished : execution.finish? locks item outcome = some (after, table, notifications)) :
    HoldsBeside base after table := by
  have schedule := (valid.step (.finish finished)).2.1
  have kept : ∀ entry ∈ table.held, entry ∈ base.held ∨ after.Owns entry := by
    intro entry held
    obtain ⟨wasHeld, stays⟩ : (entry ∈ table.held → entry ∈ locks.held) ∧
        (entry ∈ table.held → execution.Owns entry → after.Owns entry) :=
      valid.owns_finish finished
    exact (beside.held entry (wasHeld held)).imp_right (stays held)
  rcases valid.owns_of_finish finished with ⟨rfl, owners⟩ | ⟨node, rfl, owned, owners⟩
  · exact ⟨beside.distinct, fun entry owns => beside.owns entry (owners entry owns), kept,
      schedule ▸ beside.foreign⟩
  · refine ⟨LockTable.isDistinct_release beside.distinct, fun entry owns => ?_, kept,
      fun entry held foreign => ?_⟩
    · obtain ⟨before, apart⟩ := owners entry owns
      exact LockTable.mem_held_release.mpr ⟨beside.owns entry before, fun both => apart both.2⟩
    · rw [schedule] at foreign
      refine LockTable.mem_held_release.mpr ⟨beside.foreign entry held foreign, fun both => ?_⟩
      obtain ⟨holder, member, same, _⟩ := owned entry.1 both.1
      have scheduled := Schedule.mem_items member
      rw [show holder.item = node.item from same, ← both.2] at scheduled
      exact foreign scheduled

theorem HoldsBeside.close {base : LockTable} (beside : HoldsBeside base execution locks)
    (valid : execution.Valid) : HoldsBeside base execution.close locks := by
  have schedule := valid.close.2.1
  refine ⟨beside.distinct, fun entry owns => beside.owns entry (valid.owns_of_close owns),
    fun entry held => (beside.held entry held).imp_right fun owns => ?_, schedule ▸ beside.foreign⟩
  exact owns.of_running schedule (running_close _ _).mpr

theorem HoldsExactly.holder?_eq_some_iff (exact : execution.HoldsExactly locks) {name : String}
    {item : WorkItem} : locks.holder? name = some item ↔ execution.Owns (name, item) :=
  (LockTable.holder?_eq_some_iff exact.distinct).trans (exact.owns _)

theorem HoldsExactly.held_eq_nil (exact : execution.HoldsExactly locks) (idle : execution.IsIdle) :
    locks.held = [] := by
  refine List.eq_nil_iff_forall_not_mem.mpr fun entry held => ?_
  obtain ⟨node, member, _, _, running⟩ := (exact.owns entry).mp held
  exact idle node.item (Schedule.mem_items member) running

theorem holdsExactly_start {schedule : Schedule} (wellFormed : schedule.WellFormed) (name : String)
    (policy : FailurePolicy) (handlers : List String) :
    (start name schedule policy handlers).HoldsExactly {} :=
  holdsExactly_iff.mpr (holdsBeside_start wellFormed name policy handlers List.nodup_nil)

theorem HoldsExactly.select (exact : execution.HoldsExactly locks) (valid : execution.Valid)
    {selection : Selection} (selected : execution.select locks = (selection, after, table)) :
    after.HoldsExactly table :=
  holdsExactly_iff.mpr ((holdsExactly_iff.mp exact).select valid selected)

theorem HoldsExactly.finish (exact : execution.HoldsExactly locks) (valid : execution.Valid)
    {item : WorkItem} {outcome : TaskOutcome} {notifications : List Notification}
    (finished : execution.finish? locks item outcome = some (after, table, notifications)) :
    after.HoldsExactly table :=
  holdsExactly_iff.mpr ((holdsExactly_iff.mp exact).finish valid finished)

theorem HoldsExactly.close (exact : execution.HoldsExactly locks) (valid : execution.Valid) :
    execution.close.HoldsExactly locks :=
  holdsExactly_iff.mpr ((holdsExactly_iff.mp exact).close valid)

theorem Alone.sound (alone : Alone initial execution locks) (valid : initial.Valid)
    (exact : initial.HoldsExactly {}) :
    execution.Valid ∧ execution.schedule = initial.schedule ∧ execution.HoldsExactly locks := by
  induction alone with
  | start => exact ⟨valid, rfl, exact⟩
  | select _ selected ih =>
      obtain ⟨beforeValid, same, beforeExact⟩ := ih
      obtain ⟨afterValid, kept, _⟩ := beforeValid.select selected
      exact ⟨afterValid, kept.trans same, beforeExact.select beforeValid selected⟩
  | finish _ finished ih =>
      obtain ⟨beforeValid, same, beforeExact⟩ := ih
      obtain ⟨afterValid, kept, _⟩ := beforeValid.step (.finish finished)
      exact ⟨afterValid, kept.trans same, beforeExact.finish beforeValid finished⟩
  | close _ ih =>
      obtain ⟨beforeValid, same, beforeExact⟩ := ih
      obtain ⟨afterValid, kept, _⟩ := beforeValid.close
      exact ⟨afterValid, kept.trans same, beforeExact.close beforeValid⟩

theorem Alone.exists_runs (alone : Alone initial execution locks) :
    ∃ handed, Runs initial handed execution := by
  induction alone with
  | start => exact ⟨[], .start⟩
  | select _ selected ih => exact ih.imp' _ fun _ runs => .call runs (.select selected)
  | finish _ finished ih => exact ih.imp' _ fun _ runs => .call runs (.finish finished)
  | close _ ih => exact ih.imp' _ fun _ runs => .call runs .close

theorem finish?_eq_some (wellFormed : execution.schedule.WellFormed) {node : ScheduledNode}
    (member : node ∈ execution.schedule.nodes) (outcome : TaskOutcome) :
    execution.finish? locks node.item outcome = some (execution.finishNode locks node outcome) := by
  unfold finish?
  rw [wellFormed.node?_eq_some member]
  rfl

/-! ## What a call does to an exact table -/

/-- What is handed out gets all of its locks, none of which was held. If nothing is handed out,
nothing is locked. -/
theorem HoldsExactly.holder?_select (exact : execution.HoldsExactly locks) {selection : Selection}
    (selected : execution.select locks = (selection, after, table)) :
    (selection.node? = none → table = locks) ∧
    ∀ node, selection.node? = some node → ∀ name,
      (name ∈ node.locks → locks.holder? name = none) ∧
      table.holder? name = if name ∈ node.locks then some node.item else locks.holder? name := by
  cases selects selected with
  | finished => exact ⟨fun _ => rfl, nofun⟩
  | waiting => exact ⟨fun _ => rfl, nofun⟩
  | @ready node preferred listed startable subset =>
      refine ⟨nofun, fun _ handed name => ?_⟩
      cases handed
      obtain ⟨waiting, _, free⟩ := canStart_iff.mp startable
      refine ⟨fun needed => ?_, LockTable.holder?_acquire free name⟩
      have nameFree := List.all_eq_true.mp free name needed
      unfold LockTable.isFreeFor at nameFree
      -- A holder would be the node itself, which does not run yet.
      cases held : locks.holder? name with
      | none => rfl
      | some other =>
          rw [held] at nameFree
          have own : other = node.item := of_decide_eq_true nameFree
          obtain ⟨holder, _, same, _, running⟩ := exact.holder?_eq_some_iff.mp held
          rw [same, own, waiting] at running
          cases running

/-- What an item holds is free once the item has ended. An item that does not run holds nothing,
and reports about it have no effect. -/
theorem HoldsExactly.holder?_finish (exact : execution.HoldsExactly locks) (valid : execution.Valid)
    {item : WorkItem} {outcome : TaskOutcome} {notifications : List Notification}
    (finished : execution.finish? locks item outcome = some (after, table, notifications)) :
    (execution.state item ≠ .running → table = locks) ∧ ∀ name,
      table.holder? name =
        if locks.holder? name = some item then none else locks.holder? name := by
  obtain ⟨node, member, rfl, finishes⟩ := finishNode_of_finish? finished
  rcases valid.finishNode_cases member finishes with ⟨idle, _, rfl⟩ | ⟨running, rfl, _⟩
  · refine ⟨fun _ => rfl, fun name => ?_⟩
    rw [if_neg]
    intro held
    obtain ⟨holder, _, same, _, running⟩ := exact.holder?_eq_some_iff.mp held
    rw [same] at running
    exact idle running
  · refine ⟨fun idle => absurd running idle, fun name => ?_⟩
    rw [LockTable.holder?_release exact.distinct]
    refine if_congr ?_ rfl rfl
    refine and_iff_right_of_imp fun held => ?_
    obtain ⟨holder, present, same, listed, _⟩ := exact.holder?_eq_some_iff.mp held
    rw [← valid.wellFormed.node_unique present member same]
    exact listed

/-- In an execution that has its lock table for itself, a name is held by an item exactly while the
item runs and needs it. So running items never need the same name; an item that starts finds all
of its names free and takes them all, and other calls take none; a report releases what the item
holds, and nothing if it does not run; and while nothing runs, nothing is held. -/
theorem lock_table_exact {plan : Plan} (reachable : plan.Reachable) {schedule : Schedule}
    (finalized : plan.finalize.result = .ok schedule) (name : String) (policy : FailurePolicy)
    (handlers : List String) (alone : Alone (start name schedule policy handlers) execution locks) :
    (∀ lock item, locks.holder? lock = some item ↔ ∃ node ∈ schedule.nodes,
      node.item = item ∧ lock ∈ node.locks ∧ execution.state item = .running) ∧
    (∀ node ∈ schedule.nodes, ∀ other ∈ schedule.nodes, execution.state node.item = .running →
      execution.state other.item = .running → ∀ lock ∈ node.locks, lock ∈ other.locks →
        node = other) ∧
    (∀ selection after table, execution.select locks = (selection, after, table) →
      (selection.node? = none → table = locks) ∧
      ∀ node, selection.node? = some node → ∀ lock,
        (lock ∈ node.locks → locks.holder? lock = none) ∧
        table.holder? lock = if lock ∈ node.locks then some node.item else locks.holder? lock) ∧
    (∀ item outcome after table notifications,
      execution.finish? locks item outcome = some (after, table, notifications) →
      (execution.state item ≠ .running → table = locks) ∧ ∀ lock,
        table.holder? lock =
          if locks.holder? lock = some item then none else locks.holder? lock) ∧
    ((∀ item ∈ schedule.items, execution.state item ≠ .running) → locks.held = []) := by
  have wellFormed := reachable.wellFormed_of_finalize finalized
  obtain ⟨startValid, startSchedule, _⟩ := valid_start wellFormed name policy handlers
  obtain ⟨valid, same, exact⟩ :=
    alone.sound startValid (holdsExactly_start wellFormed name policy handlers)
  rw [startSchedule] at same
  have owns : ∀ lock item, execution.Owns (lock, item) ↔ ∃ node ∈ schedule.nodes,
      node.item = item ∧ lock ∈ node.locks ∧ execution.state item = .running := by
    intro lock item
    unfold Owns
    rw [same]
    refine exists_congr fun node => and_congr_right fun _ => and_congr_right fun own => ?_
    rw [own]
  refine ⟨fun lock item => exact.holder?_eq_some_iff.trans (owns lock item), ?_, ?_, ?_, ?_⟩
  · intro node member other present running alsoRunning lock listed alsoListed
    have held := exact.holder?_eq_some_iff.mpr
      ((owns lock node.item).mpr ⟨node, member, rfl, listed, running⟩)
    have alsoHeld := exact.holder?_eq_some_iff.mpr
      ((owns lock other.item).mpr ⟨other, present, rfl, alsoListed, alsoRunning⟩)
    rw [held, Option.some.injEq] at alsoHeld
    exact wellFormed.node_unique member present alsoHeld
  · intro selection after table selected
    exact exact.holder?_select selected
  · intro item outcome after table notifications finished
    exact exact.holder?_finish valid finished
  · intro idle
    refine exact.held_eq_nil fun item scheduled => idle item ?_
    rwa [same] at scheduled

end Execution

namespace Session

/-- While the first of the two tasks that need the disk runs, the second is not handed out, and
the disk stays with the first. -/
theorem lock_table_exact_disk :
    Plan.disk.finalize.result = .ok .disk ∧ diskHeld.holder? "disk" = some (.task "link") ∧
      (diskExecution.select diskHeld).1 = .waiting ∧
      (diskExecution.select diskHeld).2.2 = diskHeld := by
  have finalized : Plan.disk.finalize.result = .ok .disk := rfl
  have handed : (Execution.start "build" .disk .stop []).select {} =
      (.ready Schedule.disk.nodes[0], diskExecution, diskHeld) := rfl
  have blocked : diskExecution.select diskHeld =
      (.waiting, (diskExecution.select diskHeld).2.1, (diskExecution.select diskHeld).2.2) := rfl
  obtain ⟨holders, _, selects, _⟩ := Execution.lock_table_exact Plan.reachable_disk finalized
    "build" .stop [] (.select .start handed)
  refine ⟨finalized, (holders "disk" (.task "link")).mpr ?_, rfl, ?_⟩
  · exact ⟨Schedule.disk.nodes[0], by decide, rfl, by decide, rfl⟩
  · exact (selects _ _ _ blocked).1 rfl

end Session

end TaskPlanner
