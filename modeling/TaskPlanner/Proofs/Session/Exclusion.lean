import TaskPlanner.Proofs.Session.Progress

/-! When locks are exclusive. A running item has all of its locks, and as long as no item runs in
two executions at once, nobody else has them. The table knows an item, but not the execution that
runs it: it lets the same item in twice, and the first of the two to finish gives the locks of the
other away. -/

set_option autoImplicit false

namespace TaskPlanner

/-! ## Lock tables -/

namespace LockTable

variable {locks : LockTable} {owner : WorkItem} {names : List String}

/-- No name is held twice. -/
def IsDistinct (locks : LockTable) : Prop := (locks.held.map (·.1)).Nodup

theorem mem_held_of_holder? {name : String} (held : locks.holder? name = some owner) :
    (name, owner) ∈ locks.held := by
  obtain ⟨before, after, split, _⟩ := List.lookup_eq_some_iff.mp held
  rw [split]
  simp

theorem isDistinct_enter (distinct : locks.IsDistinct) (name : String) :
    (locks.enter owner name).IsDistinct := by
  unfold enter
  split
  next => exact distinct
  next unheld =>
    refine List.nodup_cons.mpr ⟨?_, distinct⟩
    intro present
    obtain ⟨entry, member, same⟩ := List.mem_map.mp present
    apply unheld
    unfold holder?
    rw [List.lookup_isSome_iff]
    exact ⟨entry, member, by simp [same]⟩

theorem mem_held_enter {entry : String × WorkItem} {name : String} (member : entry ∈ locks.held) :
    entry ∈ (locks.enter owner name).held := by
  unfold enter
  split
  · exact member
  · exact List.mem_cons_of_mem _ member

/-- A name that is free for an item is held by the item once it was entered. -/
theorem holder?_enter {name : String} (free : locks.isFreeFor owner name = true) :
    (locks.enter owner name).holder? name = some owner := by
  unfold isFreeFor at free
  unfold enter
  cases held : locks.holder? name with
  | none => simp [holder?]
  | some other =>
      rw [held] at free
      simp only [Option.isSome_some, if_true]
      rw [held, of_decide_eq_true free]

theorem isFreeFor_enter {name other : String} (free : locks.isFreeFor owner other = true) :
    (locks.enter owner name).isFreeFor owner other = true := by
  unfold enter
  split
  · exact free
  · unfold isFreeFor holder?
    rw [List.lookup_cons]
    split
    · simp
    · exact free

/-- Taking free names adds them, and keeps all that was held. -/
theorem acquire_sound (distinct : locks.IsDistinct) (free : locks.areFreeFor owner names = true) :
    (locks.acquire owner names).IsDistinct ∧
      (∀ entry ∈ locks.held, entry ∈ (locks.acquire owner names).held) ∧
      ∀ name ∈ names, (name, owner) ∈ (locks.acquire owner names).held := by
  induction names generalizing locks with
  | nil => exact ⟨distinct, fun _ => id, by simp⟩
  | cons name rest ih =>
      obtain ⟨nameFree, restFree⟩ := List.forall_mem_cons.mp (List.all_eq_true.mp free)
      have entered : (locks.enter owner name).areFreeFor owner rest = true :=
        List.all_eq_true.mpr fun other member => isFreeFor_enter (restFree other member)
      obtain ⟨stillDistinct, keeps, takes⟩ := ih (isDistinct_enter distinct name) entered
      constructor
      · exact stillDistinct
      constructor
      · intro entry member
        exact keeps entry (mem_held_enter member)
      · intro other member
        rcases List.mem_cons.mp member with rfl | later
        · exact keeps _ (mem_held_of_holder? (holder?_enter nameFree))
        · exact takes other later

theorem isDistinct_release (distinct : locks.IsDistinct) :
    (locks.release owner names).IsDistinct :=
  distinct.sublist (List.filter_sublist.map _)

end LockTable

/-! ## Owners -/

namespace Execution

variable {execution after : Execution} {locks table : LockTable} {entry : String × WorkItem}

/-- A selection makes nobody an owner but the node that it hands out. -/
theorem Valid.owns_of_select (valid : execution.Valid) {selection : Selection}
    (selected : execution.select locks = (selection, after, table)) (distinct : locks.IsDistinct) :
    table.IsDistinct ∧ (∀ entry ∈ locks.held, entry ∈ table.held) ∧
      ∀ entry, after.Owns entry → execution.Owns entry ∨ entry ∈ table.held := by
  cases selects selected with
  | finished => exact ⟨distinct, fun _ => id, fun _ => .inl⟩
  | waiting => exact ⟨distinct, fun _ => id, fun _ => .inl⟩
  | @ready node preferred listed startable subset =>
      obtain ⟨_, _, free⟩ := canStart_iff.mp startable
      obtain ⟨stillDistinct, keeps, takes⟩ := LockTable.acquire_sound distinct free
      refine ⟨stillDistinct, keeps, ?_⟩
      rintro ⟨name, item⟩ ⟨holder, member, rfl, listedLock, running⟩
      rw [state_record] at running
      split at running
      next same =>
        have scheduled : node ∈ execution.schedule.nodes := listed.elim (valid.preferred ·) id
        cases valid.wellFormed.node_unique member scheduled same
        exact .inr (takes name listedLock)
      next => exact .inl ⟨holder, member, rfl, listedLock, running⟩

/-- The report of an outcome makes nobody an owner, and takes from the table what one node
owned. -/
theorem Valid.owns_of_finish (valid : execution.Valid) {item : WorkItem} {outcome : TaskOutcome}
    {notifications : List Notification}
    (finished : execution.finish? locks item outcome = some (after, table, notifications)) :
    (table = locks ∧ ∀ entry, after.Owns entry → execution.Owns entry) ∨
    ∃ node : ScheduledNode, table = locks.release node.item node.locks ∧
      (∀ name ∈ node.locks, execution.Owns (name, node.item)) ∧
      ∀ entry, after.Owns entry → execution.Owns entry ∧ entry.2 ≠ node.item := by
  obtain ⟨node, member, _, finishes⟩ := finishNode_of_finish? finished
  rcases valid.finishNode_cases member finishes with
    ⟨_, rfl, rfl⟩ | ⟨running, rfl, _, schedule, moved⟩
  · exact .inl ⟨rfl, fun _ => id⟩
  · refine .inr ⟨node, rfl, fun name listed => ⟨node, member, rfl, listed, running⟩, ?_⟩
    rintro ⟨name, item⟩ ⟨holder, present, rfl, listed, runs⟩
    have stayed : (execution.record node.item (.ofOutcome outcome)).state holder.item =
        .running := by
      rcases moved holder.item with same | ⟨_, terminal⟩
      · rw [← same]
        exact runs
      · rw [runs] at terminal
        cases terminal
    rw [state_record] at stayed
    split at stayed
    next => cases outcome <;> cases stayed
    next different => exact ⟨⟨holder, schedule ▸ present, rfl, listed, stayed⟩, different⟩

theorem Valid.owns_of_close (valid : execution.Valid) (owns : execution.close.Owns entry) :
    execution.Owns entry := by
  obtain ⟨holder, member, same, listed, running⟩ := owns
  exact ⟨holder, valid.close.2.1 ▸ member, same, listed, (running_close _ _).mp running⟩

theorem not_owns_start {schedule : Schedule} (wellFormed : schedule.WellFormed) (name : String)
    (policy : FailurePolicy) (handlers : List String) :
    ¬ (start name schedule policy handlers).Owns entry := by
  rintro ⟨holder, _, _, _, running⟩
  rcases (valid_start wellFormed name policy handlers).2.2 holder.item with waiting | terminal
  · rw [running] at waiting
    cases waiting
  · rw [running] at terminal
    cases terminal

end Execution

/-! ## Sessions -/

namespace Session

variable {session before after : Session} {sessions : List Session}

/-- One call of a session. Between the calls the plan may change in any way that keeps the numbers
of its items, by which the table of locks tells owners apart. So a session is the life of one plan,
and plans with catalogs of their own, whose numbers mean other items, have no part in it. -/
inductive Step : Session → Session → Prop where
  | replan {session : Session} {plan : Plan} : plan.Reachable →
      session.plan.catalog.items <+: plan.catalog.items → Step session { session with plan }
  | finalize (session : Session) : Step session session.finalize.2
  | close (session : Session) : Step session session.close
  | select {session after : Session} {number : Nat} {selection : Selection} :
      session.select number = some (selection, after) → Step session after
  | finish {session after : Session} {number : Nat} {item : WorkItem} {outcome : TaskOutcome}
      {result : Except PlanError (List Notification)} :
      session.finish number item outcome = some (result, after) → Step session after
  | stop (session : Session) (number : Nat) : Step session (session.stop number)

/-- A session from its beginning on, as it was between the calls, the latest first. -/
inductive History : List Session → Prop where
  | new {plan : Plan} : plan.Reachable → History [{ plan }]
  | call {before after : Session} {earlier : List Session} :
      History (before :: earlier) → before.Step after → History (after :: before :: earlier)

/-- No two running items of the executions have a lock of the same name. -/
def IsExclusive (session : Session) : Prop :=
  ∀ (first second : Nat) (left right : Execution) (name : String) (item other : WorkItem),
    session.executions[first]? = some left → session.executions[second]? = some right →
    left.Owns (name, item) → right.Owns (name, other) → first = second ∧ item = other

/-- No item runs in two executions with the same lock. -/
def RunsApart (session : Session) : Prop :=
  ∀ (first second : Nat) (left right : Execution) (entry : String × WorkItem),
    session.executions[first]? = some left → session.executions[second]? = some right →
    left.Owns entry → right.Owns entry → first = second

/-- Each name is held once at most, and running items hold their locks. -/
structure Locked (session : Session) : Prop where
  distinct : session.locks.IsDistinct
  holds : ∀ (number : Nat) (execution : Execution) (entry : String × WorkItem),
    session.executions[number]? = some execution → execution.Owns entry →
      entry ∈ session.locks.held

theorem Step.reachable (step : before.Step after) (reachable : before.Reachable) :
    after.Reachable := by
  cases step with
  | replan plan => exact .replan reachable plan
  | finalize => exact .finalize reachable
  | close => exact .close reachable
  | select selected => exact .select reachable selected
  | finish finished => exact .finish reachable finished
  | stop number => exact .stop number reachable

theorem History.reachable (history : History sessions) :
    ∀ session ∈ sessions, session.Reachable := by
  induction history with
  | new plan =>
      intro session member
      cases List.mem_singleton.mp member
      exact .new plan
  | call _ step ih =>
      intro session member
      rcases List.mem_cons.mp member with rfl | earlier
      · exact step.reachable (ih _ List.mem_cons_self)
      · exact ih session earlier

/-- While no item runs twice, different items with a lock of the same name do not run together. -/
theorem Locked.isExclusive (locked : session.Locked) (apart : session.RunsApart) :
    session.IsExclusive := by
  intro first second left right name item other leftPresent rightPresent leftOwns rightOwns
  have leftHeld := locked.holds first left _ leftPresent leftOwns
  have rightHeld := locked.holds second right _ rightPresent rightOwns
  have same := List.inj_on_of_nodup_map locked.distinct leftHeld rightHeld rfl
  cases same
  exact ⟨apart first second left right _ leftPresent rightPresent leftOwns rightOwns, rfl⟩

theorem Locked.set {number : Nat} {old execution : Execution} {locks : LockTable}
    (present : session.executions[number]? = some old) (distinct : locks.IsDistinct)
    (others : ∀ (other : Nat) (holder : Execution) (entry : String × WorkItem), other ≠ number →
      session.executions[other]? = some holder → holder.Owns entry → entry ∈ locks.held)
    (own : ∀ entry, execution.Owns entry → entry ∈ locks.held) :
    Locked { session with executions := session.executions.set number execution, locks } := by
  refine ⟨distinct, ?_⟩
  intro other holder entry listed owns
  have inside := (List.getElem?_eq_some_iff.mp present).1
  by_cases same : other = number
  · subst same
    dsimp only at listed
    rw [List.getElem?_set_self inside] at listed
    cases listed
    exact own entry owns
  · dsimp only at listed
    rw [List.getElem?_set_ne (Ne.symm same)] at listed
    exact others other holder entry same listed owns

theorem Locked.set_close (locked : session.Locked) (valid : session.Valid) {number : Nat}
    {execution : Execution} (present : session.executions[number]? = some execution) :
    Locked { session with executions := session.executions.set number execution.close } := by
  refine Locked.set present locked.distinct ?_ ?_
  · intro other holder entry _ listed owns
    exact locked.holds other holder entry listed owns
  · intro entry owns
    exact locked.holds number execution entry present
      ((valid.executions_at present).owns_of_close owns)

theorem Locked.finalize (locked : session.Locked) (valid : session.Valid) :
    session.finalize.2.Locked := by
  unfold Session.finalize
  split
  · exact locked
  · dsimp only
    split
    next => exact ⟨locked.distinct, locked.holds⟩
    next schedule finalized =>
      refine ⟨locked.distinct, ?_⟩
      intro number execution entry listed owns
      dsimp only at listed
      rw [List.getElem?_append] at listed
      split at listed
      · exact locked.holds number execution entry listed owns
      · cases List.mem_singleton.mp (List.mem_of_getElem? listed)
        exact absurd owns
          (Execution.not_owns_start (valid.plan.wellFormed_of_finalize finalized) _ _ _)

theorem Locked.close (locked : session.Locked) (valid : session.Valid) :
    session.close.Locked := by
  rcases session.close_cases with ⟨_, execution, present, closed⟩ | ⟨_, closed⟩
  · rw [closed]
    have next := locked.set_close valid present
    exact ⟨next.distinct, next.holds⟩
  · rw [closed]
    exact ⟨locked.distinct, locked.holds⟩

theorem Locked.stop (locked : session.Locked) (valid : session.Valid) (number : Nat) :
    (session.stop number).Locked := by
  unfold Session.stop
  cases present : session.executions[number]? with
  | none =>
      rw [List.modify_eq_self (List.getElem?_eq_none_iff.mp present)]
      exact locked
  | some execution =>
      rw [List.modify_eq_set_getElem?, present]
      exact locked.set_close valid present

theorem Locked.select (locked : session.Locked) (valid : session.Valid) {number : Nat}
    {selection : Selection} (selected : session.select number = some (selection, after)) :
    after.Locked := by
  obtain ⟨execution, present, selects⟩ := Option.map_eq_some_iff.mp selected
  generalize outcome : execution.select session.locks = result at selects
  obtain ⟨chosen, next, locks⟩ := result
  cases selects
  obtain ⟨distinct, keeps, owners⟩ :=
    (valid.executions_at present).owns_of_select outcome locked.distinct
  refine Locked.set present distinct ?_ ?_
  · intro other holder entry _ listed owns
    exact keeps entry (locked.holds other holder entry listed owns)
  · intro entry owns
    rcases owners entry owns with old | new
    · exact keeps entry (locked.holds number execution entry present old)
    · exact new

/-- What ends releases its locks by its name. Nobody else holds them under that name, unless the
item runs twice. -/
theorem Locked.finish (locked : session.Locked) (valid : session.Valid) (apart : session.RunsApart)
    {number : Nat} {item : WorkItem} {outcome : TaskOutcome}
    {result : Except PlanError (List Notification)}
    (finished : session.finish number item outcome = some (result, after)) : after.Locked := by
  obtain ⟨execution, present, finishes⟩ := Option.map_eq_some_iff.mp finished
  split at finishes
  next =>
    cases finishes
    exact locked
  next next locks notifications done =>
    cases finishes
    rcases (valid.executions_at present).owns_of_finish done with
      ⟨rfl, owners⟩ | ⟨node, rfl, released, owners⟩
    · refine Locked.set present locked.distinct ?_ ?_
      · intro other holder entry _ listed owns
        exact locked.holds other holder entry listed owns
      · intro entry owns
        exact locked.holds number execution entry present (owners entry owns)
    · refine Locked.set present (LockTable.isDistinct_release locked.distinct) ?_ ?_
      · intro other holder entry different listed owns
        refine LockTable.mem_held_release.mpr ⟨locked.holds other holder entry listed owns, ?_⟩
        rintro ⟨taken, same⟩
        -- The holder elsewhere would be the item that ends here.
        have own : execution.Owns entry := by
          have owned := released entry.1 taken
          rwa [← same] at owned
        exact different (apart other number holder execution entry listed present owns own)
      · intro entry owns
        obtain ⟨old, apartFrom⟩ := owners entry owns
        exact LockTable.mem_held_release.mpr
          ⟨locked.holds number execution entry present old, fun both => apartFrom both.2⟩

/-- A call keeps running items in possession of their locks, unless it is the report of an item that
runs twice. -/
theorem Locked.step (locked : before.Locked) (valid : before.Valid) (apart : before.RunsApart)
    (step : before.Step after) : after.Locked := by
  cases step with
  | replan => exact ⟨locked.distinct, locked.holds⟩
  | finalize => exact locked.finalize valid
  | close => exact locked.close valid
  | stop number => exact locked.stop valid number
  | select selected => exact locked.select valid selected
  | finish finished => exact locked.finish valid apart finished

theorem History.locked (history : History sessions)
    (apart : ∀ session ∈ sessions, session.RunsApart) :
    ∀ session ∈ sessions, session.Locked := by
  induction history with
  | new plan =>
      intro session member
      cases List.mem_singleton.mp member
      exact ⟨List.nodup_nil, fun number execution entry listed => by simp at listed⟩
  | @call before after earlier history step ih =>
      have past := ih fun session member => apart session (List.mem_cons_of_mem _ member)
      intro session member
      rcases List.mem_cons.mp member with rfl | old
      · have valid := (history.reachable before List.mem_cons_self).valid
        exact (past before List.mem_cons_self).step valid
          (apart before (List.mem_cons_of_mem _ List.mem_cons_self)) step
      · exact past session old

/-- Locks are exclusive throughout the life of a session if and only if no item ever runs in two
executions with the same lock. -/
theorem exclusive_iff (history : History sessions) :
    (∀ session ∈ sessions, session.IsExclusive) ↔ ∀ session ∈ sessions, session.RunsApart := by
  constructor
  · intro exclusive session member first second left right entry leftPresent rightPresent
      leftOwns rightOwns
    exact (exclusive session member first second left right entry.1 entry.2 entry.2 leftPresent
      rightPresent leftOwns rightOwns).1
  · intro apart session member
    exact (history.locked apart session member).isExclusive (apart session member)

/-- If nothing runs with a lock but in the first execution, no item runs twice. -/
theorem runsApart_of_idle (idle : ∀ execution ∈ session.executions.tail, ∀ entry,
    ¬ execution.Owns entry) : session.RunsApart := by
  have first : ∀ {number : Nat} {execution : Execution} {entry : String × WorkItem},
      session.executions[number]? = some execution → execution.Owns entry → number = 0 := by
    intro number execution entry present owns
    cases number with
    | zero => rfl
    | succ number =>
        rw [← List.getElem?_tail] at present
        exact absurd owns (idle execution (List.mem_of_getElem? present) entry)
  intro left right _ _ entry leftPresent rightPresent leftOwns rightOwns
  exact (first leftPresent leftOwns).trans (first rightPresent rightOwns).symm

end Session

/-! ## Examples -/

def Plan.linkSeed : Plan.Seed := { item := .task "link", locks := ["disk"] }

def Plan.packSeed : Plan.Seed := { item := .task "pack", locks := ["disk"] }

/-- Two tasks that need the disk for themselves. -/
def Plan.disk : Plan := (Plan.seed { name := "build" } [linkSeed, packSeed]).plan

theorem Plan.reachable_disk : Plan.disk.Reachable := .seed _ (.new "build")

def Schedule.disk : Schedule :=
  .ofNodes [{ item := .task "link", locks := ["disk"], isEntry := true },
    { item := .task "pack", locks := ["disk"], isEntry := true }] []

def Schedule.pack : Schedule :=
  .ofNodes [{ item := .task "pack", locks := ["disk"], isEntry := true }] []

namespace Session

/-- The execution of the two tasks, while the first of them runs. -/
def diskExecution : Execution := ((Execution.start "build" .disk .stop []).select {}).2.1

def diskHeld : LockTable := { held := [("disk", .task "link")] }

/-- A session of the two tasks, while the first of them runs. -/
def diskSession : Session where
  plan := Plan.disk.finalize.plan
  executions := [diskExecution]
  locks := diskHeld

theorem history_diskSession :
    History [diskSession, Session.finalize { plan := .disk } |>.2, { plan := .disk }] := by
  have selected : (Session.finalize { plan := .disk }).2.select 0 =
      some (.ready Schedule.disk.nodes[0], diskSession) := rfl
  exact ((History.new Plan.reachable_disk).call (.finalize _)).call (.select selected)

theorem owns_diskExecution_close : diskExecution.close.Owns ("disk", .task "link") :=
  ⟨Schedule.disk.nodes[0], by decide, rfl, by decide, rfl⟩

/-- The plan of the session, closed while the first task runs, and filled again. -/
def diskAgain (seeds : List Plan.Seed) : Plan := (diskSession.close.plan.seed seeds).plan

/-- The session once that plan was handed out. -/
def diskReused (seeds : List Plan.Seed) : Session :=
  (Session.finalize { diskSession.close with plan := diskAgain seeds }).2

theorem reachable_diskAgain (seeds : List Plan.Seed) : (diskAgain seeds).Reachable :=
  .seed _ ((history_diskSession.call (.close _)).reachable _ List.mem_cons_self).valid.plan

theorem history_diskReused {seeds : List Plan.Seed}
    (known : diskSession.close.plan.catalog.items <+: (diskAgain seeds).catalog.items) :
    History [diskReused seeds, { diskSession.close with plan := diskAgain seeds },
      diskSession.close, diskSession, Session.finalize { plan := .disk } |>.2,
      { plan := .disk }] :=
  ((history_diskSession.call (.close _)).call (.replan (reachable_diskAgain seeds) known)).call
    (.finalize _)

/-- The second task alone is requested again, and has not started. -/
def packExecution : Execution := .start "build" .pack .stop []

/-- The session of both executions, while the first task still runs in the closed one. -/
def diskShared : Session where
  plan := (diskAgain [Plan.packSeed]).finalize.plan
  executions := [diskExecution.close, packExecution]
  locks := diskHeld

/-- The plan that is used again waits for the disk, which an item of the closed plan still has. -/
theorem exclusive_diskShared :
    (diskReused [Plan.packSeed]).select 1 = some (.waiting, diskShared) ∧
      diskExecution.close.Owns ("disk", .task "link") ∧ diskShared.IsExclusive := by
  have selected : (diskReused [Plan.packSeed]).select 1 = some (.waiting, diskShared) := rfl
  have history := (history_diskReused List.prefix_rfl).call (.select selected)
  have wellFormed : Schedule.pack.WellFormed :=
    (reachable_diskAgain [Plan.packSeed]).wellFormed_of_finalize rfl
  have idle : ∀ execution ∈ [packExecution], ∀ entry, ¬ execution.Owns entry :=
    List.forall_mem_singleton.mpr fun _ => Execution.not_owns_start wellFormed _ _ _
  refine ⟨selected, owns_diskExecution_close,
    (exclusive_iff history).mpr ?_ diskShared List.mem_cons_self⟩
  simp only [List.forall_mem_cons]
  exact ⟨runsApart_of_idle idle, runsApart_of_idle idle, runsApart_of_idle nofun,
    runsApart_of_idle nofun, runsApart_of_idle nofun, runsApart_of_idle nofun,
    runsApart_of_idle nofun, nofun⟩

/-- Both tasks are handed out again, and the first one starts beside itself. -/
def diskTwice : Session where
  plan := (diskAgain [Plan.linkSeed, Plan.packSeed]).finalize.plan
  executions := [diskExecution.close, diskExecution]
  locks := diskHeld

/-- A plan that is used again while an item of it still runs hands the item out again. -/
theorem not_exclusive_diskTwice :
    ∃ sessions, History sessions ∧ ∃ session ∈ sessions, ¬ session.IsExclusive := by
  have selected : (diskReused [Plan.linkSeed, Plan.packSeed]).select 1 =
      some (.ready Schedule.disk.nodes[0], diskTwice) := rfl
  have history := (history_diskReused List.prefix_rfl).call (.select selected)
  refine ⟨_, history, diskTwice, List.mem_cons_self, fun exclusive => ?_⟩
  have second : diskExecution.Owns ("disk", .task "link") :=
    ⟨Schedule.disk.nodes[0], by decide, rfl, by decide, rfl⟩
  have same := (exclusive 0 1 _ _ "disk" _ _ rfl rfl owns_diskExecution_close second).1
  cases same

end Session

end TaskPlanner
