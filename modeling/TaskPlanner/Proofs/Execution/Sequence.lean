import Mathlib.Data.List.Find
import Mathlib.Data.List.TakeWhile
import TaskPlanner.Execution.Drain
import TaskPlanner.Proofs.Execution.Progress
import TaskPlanner.Proofs.Execution.Success
import TaskPlanner.Proofs.Schedule.Prompt

/-! One worker whose work always succeeds. It hands out everything that has work, and the order is
that of the schedule until a finalizer in line is due before its turn. What has ended, and who
stands in line, depends on what ran and on nothing else. -/

set_option autoImplicit false

namespace TaskPlanner

namespace Execution

variable {execution after finished : Execution} {locks table released : LockTable}
  {node next other : ScheduledNode} {ran left rest : List ScheduledNode}
  {notifications : List Notification} {drained last : Drained}

/-! ## Selecting -/

theorem takePreferred_eq (execution : Execution) (locks : LockTable) (line : List ScheduledNode) :
    execution.takePreferred locks line = (line.find? (execution.canStart locks)).map
      fun node => (node, (line.dropWhile (· ≠ node)).tail) := by
  induction line with
  | nil => rfl
  | cons head tail ih =>
      unfold takePreferred
      split
      next startable => simp [startable]
      next blocked =>
        rw [ih, List.find?_cons, Bool.eq_false_iff.mpr blocked]
        cases found : tail.find? (execution.canStart locks) with
        | none => rfl
        | some node =>
            have different : head ≠ node := by
              rintro rfl
              exact blocked (List.find?_some found)
            simp [different]

/-- Everything that can start is on offer, so the schedule may be searched in place of it. -/
theorem Valid.find?_candidates (valid : execution.Valid) :
    execution.candidates.find? (execution.canStart locks) =
      execution.schedule.nodes.find? (execution.canStart locks) := by
  unfold candidates
  rw [List.find?_filter]
  refine List.find?_congr fun node member => ?_
  cases startable : execution.canStart locks node with
  | false => simp
  | true =>
      obtain ⟨waiting, ready, _⟩ := canStart_iff.mp startable
      simp [valid.examined.offered node member waiting List.not_mem_nil ready]

/-- The node that is handed out, and what is left of the line. -/
theorem Valid.select_ready (valid : execution.Valid)
    (selected : execution.select locks = (.ready node, after, table)) :
    (execution.preferred.find? (execution.canStart locks)).or
        (execution.schedule.nodes.find? (execution.canStart locks)) = some node ∧
      after.preferred = (execution.preferred.dropWhile (· ≠ node)).tail := by
  unfold Execution.select choose at selected
  rw [takePreferred_eq, valid.find?_candidates] at selected
  split at selected
  · cases selected
  · cases inLine : execution.preferred.find? (execution.canStart locks) with
    | some other =>
        simp only [inLine, Option.map_some] at selected
        cases selected
        exact ⟨rfl, rfl⟩
    | none =>
        simp only [inLine, Option.map_none] at selected
        cases found : execution.schedule.nodes.find? (execution.canStart locks) with
        | none =>
            rw [found] at selected
            cases selected
        | some other =>
            simp only [found] at selected
            cases selected
            refine ⟨rfl, ?_⟩
            have absent : ∀ waiting ∈ execution.preferred, waiting ≠ node := by
              rintro waiting member rfl
              exact List.find?_eq_none.mp inLine waiting member (List.find?_some found)
            have all : execution.preferred.dropWhile (· ≠ node) = [] :=
              List.dropWhile_eq_nil_iff.mpr fun waiting member =>
                decide_eq_true (absent waiting member)
            rw [all]
            rfl

/-! ## What is kept while all work succeeds -/

/-- An execution of which `ran` has been handed out and finished with success, and nothing else. -/
structure Tally (ran : List ScheduledNode) (execution : Execution) : Prop where
  valid : execution.Valid
  idle : execution.IsIdle
  determined : execution.Determined fun _ => .success
  distinct : ran.Nodup
  listed : ran ⊆ execution.schedule.works
  started : ∀ node ∈ execution.schedule.works,
    node ∈ ran ↔ execution.state node.item ≠ .waiting
  preferred : execution.preferred = execution.schedule.line ran

theorem Tally.isReady_iff (tally : execution.Tally ran) (member : node ∈ execution.schedule.nodes) :
    execution.isReady node = true ↔
      ∀ waited ∈ node.predecessors, execution.state waited.1 ≠ .waiting := by
  rw [Execution.isReady_iff]
  refine forall₂_congr fun waited waits => ?_
  constructor
  · intro satisfied
    exact NodeState.ne_waiting_of_isTerminal (isTerminal_of_isSatisfied satisfied)
  · intro left
    have scheduled := tally.valid.wellFormed.mem_items_of_predecessor member waits
    have terminal := tally.idle.isTerminal scheduled left
    rw [tally.determined.state_eq_succeeded tally.valid.wellFormed _ scheduled terminal]
    cases waited.2 <;> rfl

theorem Tally.mem_ended (tally : execution.Tally ran) : ∀ item ∈ execution.schedule.items,
    item ∈ execution.schedule.ended ran ↔ execution.state item ≠ .waiting := by
  refine tally.valid.wellFormed.induction fun node member before => ?_
  rw [tally.valid.wellFormed.mem_ended member, forall₂_congr before, ← tally.isReady_iff member]
  cases work : node.isWork with
  | true =>
      rw [tally.started node (Schedule.mem_works.mpr ⟨member, work⟩)]
      simp
  | false =>
      have unran : node ∉ ran := by
        intro present
        have worked := (Schedule.mem_works.mp (tally.listed present)).2
        rw [work] at worked
        cases worked
      rw [or_iff_right unran, and_iff_right rfl]
      constructor
      · intro ready waiting
        have unsettled := tally.valid.examined.unsettled node member waiting List.not_mem_nil
        obtain ⟨unmarked, unexecuted⟩ := (settled?_eq_none_iff.mp unsettled).2.2.2 ready
        simp [ScheduledNode.isWork, unmarked, unexecuted] at work
      · intro left
        rw [tally.isReady_iff member]
        intro waited waits
        exact NodeState.ne_waiting_of_isTerminal (tally.determined.isTerminal_of_predecessor
          tally.valid.wellFormed member left waits)

/-- What can start is what is due. -/
theorem Tally.canStart_eq (tally : execution.Tally ran) (unlocked : locks.held = [])
    (member : node ∈ execution.schedule.nodes) :
    execution.canStart locks node = execution.schedule.isDue ran node := by
  have waiting := tally.mem_ended node.item (Schedule.mem_items member)
  have ready : execution.isReady node = true ↔
      ∀ waited ∈ node.predecessors, waited.1 ∈ execution.schedule.ended ran := by
    rw [tally.isReady_iff member]
    refine forall₂_congr fun waited waits => ?_
    rw [tally.mem_ended _ (tally.valid.wellFormed.mem_items_of_predecessor member waits)]
  rw [Bool.eq_iff_iff, canStart_iff, Schedule.isDue_iff, ready, waiting, not_not,
    LockTable.areFreeFor_of_held_eq_nil unlocked, eq_self_iff_true, and_true]

/-- The first finalizer in line that is due is handed out, or else the first node of the schedule
that is. -/
theorem Tally.select_ready (tally : execution.Tally ran) (unlocked : locks.held = [])
    (selected : execution.select locks = (.ready node, after, table)) :
    (execution.schedule.firstInLine? ran).or
      (execution.schedule.nodes.find? (execution.schedule.isDue ran)) = some node := by
  have line : execution.preferred.find? (execution.canStart locks) =
      execution.schedule.firstInLine? ran := by
    rw [Schedule.firstInLine?, ← tally.preferred]
    exact List.find?_congr fun other member =>
      tally.canStart_eq unlocked (tally.valid.preferred member)
  have nodes : execution.schedule.nodes.find? (execution.canStart locks) =
      execution.schedule.nodes.find? (execution.schedule.isDue ran) :=
    List.find?_congr fun other member => tally.canStart_eq unlocked member
  rw [← line, ← nodes]
  exact (tally.valid.select_ready selected).1

/-! ## One turn -/

/-- Work is settled only by leaving it out. -/
theorem isLeftOut_of_settled? {state : NodeState} (work : node.isWork = true)
    (settled : execution.settled? node = some state) : state.isLeftOut = true := by
  have busy : (node.isMarker || node.isExecuted) = false := by
    simpa [ScheduledNode.isWork] using work
  unfold settled? at settled
  split at settled
  · cases settled
    rfl
  · split at settled
    next forcedState forced =>
      cases settled
      exact isLeftOut_of_forced? forced
    next =>
      split at settled
      · cases settled
        rfl
      · rw [busy, Bool.false_and, if_neg Bool.false_ne_true] at settled
        cases settled

/-- What has work goes on waiting when nodes are examined, unless it is left out. -/
theorem state_reexamine_of_isWork (wellFormed : execution.schedule.WellFormed)
    {nodes : List ScheduledNode} (scheduled : nodes ⊆ execution.schedule.nodes)
    (member : node ∈ execution.schedule.nodes) (work : node.isWork = true)
    (waiting : execution.state node.item = .waiting) :
    (execution.reexamine nodes).state node.item = .waiting ∨
      ((execution.reexamine nodes).state node.item).isLeftOut = true := by
  by_cases left : (execution.reexamine nodes).state node.item = .waiting
  · exact .inl left
  · obtain ⟨middle, _, _, settled⟩ :=
      exists_settled?_of_propagate wellFormed scheduled member waiting left
    exact .inr (isLeftOut_of_settled? work settled)

theorem state_settleAfter (execution : Execution) (item : WorkItem) (outcome : TaskOutcome)
    (other : WorkItem) :
    (execution.settleAfter item outcome).state other = execution.state other ∨
      execution.state other = .waiting := by
  unfold settleAfter
  split
  · exact ((settles_propagate _ _ _).moved other).imp_right And.left
  · exact ((settles_propagate _ _ _).moved other).imp_right And.left

/-- When an item has ended, work stays what it was, or is left out. -/
theorem state_settleAfter_of_isWork (wellFormed : execution.schedule.WellFormed)
    (member : node ∈ execution.schedule.nodes) (work : node.isWork = true) (item : WorkItem)
    (outcome : TaskOutcome) :
    (execution.settleAfter item outcome).state node.item = execution.state node.item ∨
      ((execution.settleAfter item outcome).state node.item).isLeftOut = true := by
  rcases execution.state_settleAfter item outcome node.item with same | waiting
  · exact .inl same
  · rw [waiting]
    unfold settleAfter
    split
    · exact @state_reexamine_of_isWork { execution with isAborted := true } node wellFormed _
        (List.Subset.refl _) member work waiting
    · exact state_reexamine_of_isWork wellFormed List.filter_sublist.subset member work waiting

theorem state_start_of_isWork {schedule : Schedule} (wellFormed : schedule.WellFormed)
    (name : String) (policy : FailurePolicy) (handlers : List String)
    (member : node ∈ schedule.nodes) (work : node.isWork = true) :
    (start name schedule policy handlers).state node.item = .waiting ∨
      ((start name schedule policy handlers).state node.item).isLeftOut = true :=
  @state_reexamine_of_isWork
    { name, schedule, policy, handlers, pending := schedule.nodes.length } node wellFormed
    schedule.nodes (List.Subset.refl _) member work rfl

theorem preferred_start (name : String) (schedule : Schedule) (policy : FailurePolicy)
    (handlers : List String) : (start name schedule policy handlers).preferred = [] :=
  (settles_propagate _ _ _).preferred

/-- Reporting the success of a running node ends it, settles what waited for it, and puts its
finalizers in line. -/
theorem finishNode_success (running : execution.state node.item = .running)
    (finishes : execution.finishNode locks node .success = (finished, released, notifications)) :
    (∀ item, finished.state item = ((execution.record node.item .succeeded).reexamine
        (execution.dependents node.item)).state item) ∧
      finished.preferred = execution.preferred ++ execution.schedule.nodes.filter
        fun finalizer => decide (node.item ∈ finalizer.finalizes) := by
  have settled : (execution.record node.item (.ofOutcome .success)).settleAfter node.item .success =
      (execution.record node.item .succeeded).reexamine (execution.dependents node.item) :=
    settleAfter_eq_reexamine (.inr rfl)
  rw [finishNode_of_running running, settled] at finishes
  cases finishes
  exact ⟨fun _ => rfl, rfl⟩

/-- A success makes no other work start or end, if nothing is left out. -/
theorem Valid.waiting_finishNode (valid : execution.Valid)
    (running : execution.state node.item = .running)
    (finishes : execution.finishNode locks node .success = (finished, released, notifications))
    (succeeded : ∀ item ∈ execution.schedule.items,
      (finished.state item).isTerminal = true → finished.state item = .succeeded)
    (listed : other ∈ execution.schedule.works) :
    finished.state other.item = .waiting ↔ execution.state other.item = .waiting := by
  obtain ⟨member, work⟩ := Schedule.mem_works.mp listed
  obtain ⟨states, _⟩ := finishNode_success running finishes
  have frame : Settles (execution.record node.item .succeeded)
      ((execution.record node.item .succeeded).reexamine (execution.dependents node.item)) :=
    settles_propagate _ _ _
  have moves := frame.moves other.item
  rw [← states, state_record] at moves
  split at moves
  next same =>
    rw [moves.eq_of_isTerminal rfl, same, running]
    exact iff_of_false NodeState.noConfusion NodeState.noConfusion
  next different =>
    constructor
    · exact moves.eq_waiting
    · intro waiting
      have recorded : (execution.record node.item .succeeded).state other.item = .waiting := by
        rw [state_record, if_neg different, waiting]
      have wellFormed : (execution.record node.item .succeeded).schedule.WellFormed :=
        valid.wellFormed
      have scheduled : execution.dependents node.item ⊆
          (execution.record node.item .succeeded).schedule.nodes := List.filter_sublist.subset
      rcases state_reexamine_of_isWork wellFormed scheduled member work recorded with
        still | leftOut
      · exact (states _).trans still
      · rw [← states] at leftOut
        have terminal := NodeState.isTerminal_of_isLeftOut leftOut
        rw [succeeded _ (Schedule.mem_items member) terminal] at leftOut
        cases leftOut

theorem Tally.turn (tally : execution.Tally ran) (unlocked : locks.held = [])
    (selected : execution.select locks = (.ready node, after, table))
    (finishes : after.finishNode table node .success = (finished, released, notifications)) :
    finished.Tally (ran ++ [node]) := by
  obtain ⟨finishedValid, finishedIdle, _, schedule, _⟩ :=
    tally.valid.turn tally.idle unlocked selected .success finishes
  obtain ⟨member, waiting, running, _, unmarked, unexecuted⟩ := tally.valid.ready selected
  obtain ⟨afterValid, afterSchedule, _⟩ := tally.valid.select selected
  have chosen : node ∈ execution.schedule.works :=
    Schedule.mem_works.mpr ⟨member, by simp [ScheduledNode.isWork, unmarked, unexecuted]⟩
  have unran : node ∉ ran := fun present => (tally.started node chosen).mp present waiting
  have reported : after.finish? table node.item .success =
      some (finished, released, notifications) := by
    unfold finish?
    rw [afterValid.wellFormed.node?_eq_some (afterSchedule ▸ member), Option.map_some, finishes]
  have determined : finished.Determined fun _ => .success :=
    (tally.determined.select tally.valid selected).finish? afterValid.wellFormed reported
  refine ⟨finishedValid, finishedIdle, determined, ?_, ?_, fun other listed => ?_, ?_⟩
  · exact List.nodup_append.mpr ⟨tally.distinct, List.nodup_singleton _, fun one inside other last =>
      List.mem_singleton.mp last ▸ fun same => unran (same ▸ inside)⟩
  · rw [schedule]
    exact List.append_subset.mpr ⟨tally.listed, List.cons_subset.mpr ⟨chosen, List.nil_subset _⟩⟩
  · rw [schedule] at listed
    have kept := afterValid.waiting_finishNode running finishes
      (afterSchedule.trans schedule.symm ▸ determined.state_eq_succeeded finishedValid.wellFormed)
      (afterSchedule ▸ listed)
    rw [List.mem_append, List.mem_singleton, tally.started other listed, Ne, Ne, kept]
    cases selects selected with
    | ready =>
        rw [state_record]
        by_cases same : other = node
        · simp [same]
        · have different : other.item ≠ node.item := fun named =>
            same (tally.valid.wellFormed.node_unique (Schedule.mem_works.mp listed).1 member named)
          rw [if_neg different, or_iff_left same]
          rfl
  · rw [(finishNode_success running finishes).2, schedule, Schedule.line_concat, Schedule.advance,
      ← tally.preferred, (tally.valid.select_ready selected).2, afterSchedule]

/-! ## Whole runs -/

/-- When nothing is pending any more, all work has run. -/
theorem Tally.perm_works (tally : execution.Tally ran) (completed : execution.pending = 0) :
    ran.Perm execution.schedule.works := by
  refine (List.perm_ext_iff_of_nodup tally.distinct tally.valid.wellFormed.nodup_works).mpr ?_
  intro node
  constructor
  · exact fun present => tally.listed present
  · intro listed
    have terminal :=
      tally.valid.isTerminal_of_pending completed (Schedule.mem_works.mp listed).1
    exact (tally.started node listed).mpr (NodeState.ne_waiting_of_isTerminal terminal)

/-- One turn of the worker: `node` is handed out and finished with success. -/
structure Turns (before : Drained) (node : ScheduledNode) (after : Drained) : Prop where
  tally : after.execution.Tally after.ran
  unlocked : after.locks.held = []
  isFinished : after.isFinished = before.isFinished
  schedule : after.execution.schedule = before.execution.schedule
  ran : after.ran = before.ran ++ [node]
  fewer : after.execution.waitingCount + 1 ≤ before.execution.waitingCount
  chosen : (before.execution.schedule.firstInLine? before.ran).or
    (before.execution.schedule.nodes.find? (before.execution.schedule.isDue before.ran)) = some node

/-- The worker takes a turn, unless nothing is pending. -/
theorem Tally.drainSteps_succ (tally : drained.execution.Tally drained.ran)
    (unlocked : drained.locks.held = []) {steps : Nat}
    (drains : drainSteps (fun _ => .success) (steps + 1) drained = last) :
    (drained.execution.pending = 0 ∧ last = { drained with isFinished := true }) ∨
      ∃ node after, Turns drained node after ∧ drainSteps (fun _ => .success) steps after = last := by
  unfold drainSteps at drains
  split at drains
  next node execution locks selected =>
    generalize finishes : execution.finishNode locks node .success = result at drains
    obtain ⟨finished, released, notifications⟩ := result
    obtain ⟨_, _, unlockedAgain, schedule, fewer⟩ :=
      tally.valid.turn tally.idle unlocked selected .success finishes
    refine .inr ⟨node, _, ?_, drains⟩
    exact ⟨tally.turn unlocked selected finishes, unlockedAgain, rfl, schedule, rfl, fewer,
      tally.select_ready unlocked selected⟩
  next execution locks selected =>
    have progress := tally.valid.select_ne_waiting tally.idle unlocked
    rw [selected] at progress
    exact absurd rfl progress
  next execution locks selected =>
    cases drains
    cases selects selected with
    | finished completed => exact .inl ⟨completed, rfl⟩

theorem Tally.drainSteps (tally : drained.execution.Tally drained.ran)
    (unlocked : drained.locks.held = []) (unfinished : drained.isFinished = false) {steps : Nat}
    (drains : drainSteps (fun _ => .success) steps drained = last) :
    last.execution.Tally last.ran ∧ last.execution.schedule = drained.execution.schedule ∧
      drained.ran <+: last.ran ∧ (last.isFinished = true → last.execution.pending = 0) := by
  induction steps generalizing drained with
  | zero =>
      cases drains
      refine ⟨tally, rfl, List.prefix_rfl, fun finished => ?_⟩
      rw [show (Execution.drainSteps _ 0 drained).isFinished = false from unfinished] at finished
      cases finished
  | succ steps ih =>
      rcases tally.drainSteps_succ unlocked drains with
        ⟨completed, rfl⟩ | ⟨node, after, turns, rests⟩
      · exact ⟨tally, rfl, List.prefix_rfl, fun _ => completed⟩
      · obtain ⟨lastTally, schedule, later, completed⟩ := ih turns.tally turns.unlocked
          (turns.isFinished.trans unfinished) rests
        refine ⟨lastTally, schedule.trans turns.schedule, List.IsPrefix.trans ?_ later, completed⟩
        exact ⟨[node], turns.ran.symm⟩

theorem Turns.mem_works (turns : Turns drained node last) :
    node ∈ drained.execution.schedule.works ∧ node ∉ drained.ran := by
  have distinct := turns.tally.distinct
  rw [turns.ran] at distinct
  refine ⟨?_, fun present => (List.nodup_append.mp distinct).2.2 node present node ?_ rfl⟩
  · rw [← turns.schedule]
    exact turns.tally.listed (turns.ran ▸ List.mem_append_cons_self)
  · exact List.mem_cons_self

/-- If the schedule's next node is due, a turn hands it out unless another node is first in line. -/
theorem Turns.eq_iff (turns : Turns drained node last)
    (due : drained.execution.schedule.nodes.find? (drained.execution.schedule.isDue drained.ran) =
      some next) :
    node = next ↔ ∀ other ∈ drained.execution.schedule.firstInLine? drained.ran, other = next := by
  have chosen := turns.chosen
  rw [due] at chosen
  cases first : drained.execution.schedule.firstInLine? drained.ran with
  | none =>
      rw [first] at chosen
      cases chosen
      exact iff_of_true rfl (by simp)
  | some other =>
      rw [first] at chosen
      cases chosen
      simp

/-- The rest of the run follows the schedule exactly if at no point of it another node than the next
one is first in line. -/
theorem Tally.drainSteps_eq_works_iff (tally : drained.execution.Tally drained.ran)
    (unlocked : drained.locks.held = []) (unfinished : drained.isFinished = false)
    (split : drained.execution.schedule.works = drained.ran ++ left) {steps : Nat}
    (enough : drained.execution.waitingCount < steps)
    (drains : Execution.drainSteps (fun _ => .success) steps drained = last) :
    last.ran = drained.execution.schedule.works ↔
      ∀ middle next rest, left = middle ++ next :: rest →
        ∀ other ∈ drained.execution.schedule.firstInLine? (drained.ran ++ middle),
          other = next := by
  induction left generalizing steps drained with
  | nil =>
      obtain ⟨steps, rfl⟩ := Nat.exists_eq_succ_of_ne_zero (Nat.ne_zero_of_lt enough)
      rw [List.append_nil] at split
      refine iff_of_true ?_ fun middle next rest impossible => ?_
      · rcases tally.drainSteps_succ unlocked drains with ⟨_, rfl⟩ | ⟨node, after, turns, _⟩
        · exact split.symm
        · exact absurd (split ▸ turns.mem_works.1) turns.mem_works.2
      · cases middle <;> cases impossible
  | cons next rest ih =>
      obtain ⟨steps, rfl⟩ := Nat.exists_eq_succ_of_ne_zero (Nat.ne_zero_of_lt enough)
      have due := tally.valid.wellFormed.find?_isDue split
      rcases tally.drainSteps_succ unlocked drains with
        ⟨completed, _⟩ | ⟨node, after, turns, rests⟩
      · have distinct := tally.valid.wellFormed.nodup_works
        have present : next ∈ drained.ran :=
          (tally.perm_works completed).mem_iff.mpr (split ▸ List.mem_append_cons_self)
        rw [split] at distinct
        exact absurd rfl ((List.nodup_append.mp distinct).2.2 _ present _ List.mem_cons_self)
      · have follows := turns.eq_iff due
        by_cases taken : node = next
        · subst taken
          have splitAgain : after.execution.schedule.works = after.ran ++ rest := by
            rw [turns.schedule, split, turns.ran, List.append_assoc, List.singleton_append]
          have fewer : after.execution.waitingCount < steps := by
            have := turns.fewer
            omega
          have further := ih turns.tally turns.unlocked (turns.isFinished.trans unfinished)
            splitAgain fewer rests
          rw [turns.schedule, turns.ran] at further
          rw [further]
          constructor
          · intro all middle other later cut
            cases middle with
            | nil =>
                cases cut
                rw [List.append_nil]
                exact follows.mp rfl
            | cons head tail =>
                cases cut
                have here := all tail other later rfl
                rwa [List.append_assoc] at here
          · intro all middle other later cut
            have here := all (node :: middle) other later (congrArg _ cut)
            rwa [List.append_assoc]
        · refine iff_of_false (fun whole => taken ?_) fun all => taken (follows.mpr ?_)
          · obtain ⟨_, _, ⟨added, later⟩, _⟩ := turns.tally.drainSteps turns.unlocked
              (turns.isFinished.trans unfinished) rests
            rw [whole, split, turns.ran, List.append_assoc] at later
            exact (List.cons.inj (List.append_cancel_left later)).1
          · have here := all [] next rest rfl
            rwa [List.append_nil] at here

theorem tally_start {schedule : Schedule} (wellFormed : schedule.WellFormed) (name : String)
    (policy : FailurePolicy) (handlers : List String) :
    (start name schedule policy handlers).Tally [] := by
  obtain ⟨valid, same, fresh⟩ := valid_start wellFormed name policy handlers
  have determined : (start name schedule policy handlers).Determined fun _ => .success :=
    determined_start wellFormed name handlers (.inr fun _ => rfl)
  refine ⟨valid, fun item _ running => ?_, determined, List.nodup_nil, List.nil_subset _,
    fun node listed => ?_, preferred_start name schedule policy handlers⟩
  · rcases fresh item with waiting | terminal
    · rw [running] at waiting
      cases waiting
    · rw [running] at terminal
      cases terminal
  · rw [same] at listed
    obtain ⟨member, work⟩ := Schedule.mem_works.mp listed
    refine iff_of_false List.not_mem_nil (not_not.mpr ?_)
    rcases state_start_of_isWork wellFormed name policy handlers member work with
      waiting | leftOut
    · exact waiting
    · have succeeded := determined.state_eq_succeeded valid.wellFormed node.item
        (by rw [same]; exact Schedule.mem_items member) (NodeState.isTerminal_of_isLeftOut leftOut)
      rw [succeeded] at leftOut
      cases leftOut

/-- One worker, nothing locked, and all work succeeds: exactly the work of the schedule is handed
out, and all of it is. The order is that of the schedule exactly if no node in line is ever due
before its turn, and so it is if all finalizers are prompt. -/
theorem drain_in_order {plan : Plan} (reachable : plan.Reachable) {schedule : Schedule}
    (finalized : plan.finalize.result = .ok schedule) (name : String) (policy : FailurePolicy)
    (handlers : List String) (unlocked : locks.held = [])
    (drains : (start name schedule policy handlers).drain locks (fun _ => .success) = last) :
    last.isFinished = true ∧ last.ran.Perm schedule.works ∧
      (last.ran = schedule.works ↔ ∀ done next rest, schedule.works = done ++ next :: rest →
        ∀ other ∈ schedule.firstInLine? done, other = next) ∧
      (schedule.IsPrompt → last.ran = schedule.works) := by
  have wellFormed := reachable.wellFormed_of_finalize finalized
  obtain ⟨_, same, _⟩ := valid_start wellFormed name policy handlers
  have tally := tally_start wellFormed name policy handlers
  generalize start name schedule policy handlers = execution at same tally drains
  subst same
  have bound := Nat.lt_succ_of_le execution.waitingCount_le
  obtain ⟨finished, _⟩ := tally.valid.drain_finished tally.idle unlocked fun _ => .success
  rw [drains] at finished
  obtain ⟨lastTally, schedule, _, completed⟩ :=
    @Tally.drainSteps { execution, locks } _ tally unlocked rfl _ drains
  have exact' := @Tally.drainSteps_eq_works_iff execution.schedule.works { execution, locks } _ tally unlocked
    rfl rfl _ bound drains
  refine ⟨finished, schedule ▸ lastTally.perm_works (completed finished), exact', fun prompt => ?_⟩
  refine exact'.mpr fun done next rest split => ?_
  rcases reachable.isOrdered_of_finalize finalized with empty | ⟨inventory, scheduled⟩
  · simp [Schedule.works, empty] at split
  · obtain ⟨order, ordered, nodes⟩ := Inventory.schedule_eq_ok scheduled
    exact Inventory.eq_of_mem_firstInLine? scheduled ordered nodes prompt split

end Execution

/-! ## An example -/

/-- A plan of `compile`, of `report` and `upload`, which finalize it, and of `notify`, which
finalizes `report`. The upload needs the report. -/
def Plan.delivery : Plan :=
  (Plan.seed { name := "build" }
    [{ item := .task "compile", finalizers := [1, 3] },
      { item := .task "report", finalizers := [2] }, { item := .task "notify" },
      { item := .task "upload", dependencies := [1] }]).plan

theorem Plan.reachable_delivery : Plan.delivery.Reachable := .seed _ (.new "build")

def Schedule.delivery : Schedule :=
  .ofNodes
    [{ item := .task "compile", isEntry := true },
      { item := .task "report", predecessors := [(.task "compile", .finalizes)],
        finalizes := [.task "compile"], isEntry := true },
      { item := .task "notify", predecessors := [(.task "report", .finalizes)],
        finalizes := [.task "report"], isEntry := true },
      { item := .task "upload",
        predecessors := [(.task "compile", .finalizes), (.task "report", .dependency)],
        finalizes := [.task "compile"], isEntry := true }]
    []

theorem Plan.finalize_delivery : Plan.delivery.finalize.result = .ok .delivery := rfl

namespace Execution

theorem drain_in_order_delivery :
    Plan.delivery.finalize.result = .ok .delivery ∧
      ((start "build" .delivery .stop []).drain {} fun _ => .success).ran.Perm
        Schedule.delivery.works := by
  have unlocked : ({} : LockTable).held = [] := rfl
  have all := drain_in_order Plan.reachable_delivery Plan.finalize_delivery "build" .stop []
    unlocked rfl
  exact ⟨Plan.finalize_delivery, all.2.1⟩

/-- `upload` joins the line when `compile` has ended, and so it stands in front of `notify`, which
joins when `report` has. The schedule has it the other way. -/
theorem not_in_order_delivery :
    Plan.delivery.Reachable ∧ Plan.delivery.finalize.result = .ok .delivery ∧
      ∃ last, (start "build" .delivery .stop []).drain {} (fun _ => .success) = last ∧
        last.isFinished = true ∧ last.ran ≠ Schedule.delivery.works :=
  ⟨Plan.reachable_delivery, Plan.finalize_delivery, _, rfl, rfl, by decide⟩

end Execution

end TaskPlanner
