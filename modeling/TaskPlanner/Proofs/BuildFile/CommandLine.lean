import TaskPlanner.Proofs.BuildFile.Validity
import TaskPlanner.Proofs.Execution.Success
import TaskPlanner.Proofs.Plan.Gathering

/-! The tasks of a command line run one after the other, each with what it depends on. Being needed
by a finalizer puts a task into no batch, and what an earlier batch needs is not held back: both may
run before their turn. -/

set_option autoImplicit false

namespace TaskPlanner

namespace Inventory

/-- The item is in no batch in front of `ordinal`, and in that very batch unless it is loose. -/
structure Enrolls (inventory : Inventory) (resolver : Resolver) (ordinal : Ordinal)
    (item : WorkItem) : Prop where
  late : ∀ group, (inventory.node item).group = some group → ordinal ≤ group
  due : resolver.IsLoose item ∨ (inventory.node item).DueBy ordinal

variable {inventory : Inventory} {resolver : Resolver} {ordinal : Ordinal} {item : WorkItem}

theorem Enrolls.group_eq (enrolls : inventory.Enrolls resolver ordinal item)
    (tied : ¬resolver.IsLoose item) : (inventory.node item).group = some ordinal := by
  obtain ⟨group, present, early⟩ := enrolls.due.resolve_left tied
  rw [present, Fin.le_antisymm early (enrolls.late group present)]

theorem Enrolls.withMarkers (enrolls : inventory.Enrolls resolver ordinal item)
    (unmarked : item.isMarker = false) :
    inventory.withMarkers.Enrolls resolver ordinal item := by
  have marks := inventory.marks_withMarkers
  refine ⟨fun group present => ?_, enrolls.due.imp_right (marks.dueBy item ordinal)⟩
  rcases marks.grouped item group present with before | ⟨_, rfl⟩
  · exact enrolls.late group before
  · cases unmarked

end Inventory

namespace BuildFile

variable {file : BuildFile} {arguments : Arguments} {base plan last : Plan}
  {done rest : List (List String)} {batch : List String} {item : WorkItem} {position : Nat}

/-! ## Submissions -/

theorem submitAll_cons : file.submitAll (batch :: rest) plan = .ok last ↔
    (batch.find? fun task => !file.defines task) = none ∧
      (plan.take file.resolver (.tasks batch none)).result = .ok () ∧
      file.submitAll rest (plan.take file.resolver (.tasks batch none)).plan = .ok last := by
  show _ ↔ _ ∧ (plan.submit file.resolver batch none).result = .ok () ∧
    file.submitAll rest (plan.submit file.resolver batch none).plan = .ok last
  rw [submitAll]
  split
  next task unknown => simp [unknown]
  next defined =>
    dsimp only
    split
    next error failed => simp [failed]
    next taken => simp [defined, taken]

theorem exists_submitAll (submitted : file.submitAll (done ++ rest) base = .ok last) :
    ∃ plan, file.submitAll done base = .ok plan ∧ file.submitAll rest plan = .ok last := by
  induction done generalizing base with
  | nil => exact ⟨base, rfl, submitted⟩
  | cons batch done ih =>
      obtain ⟨defined, taken, further⟩ := submitAll_cons.mp submitted
      obtain ⟨plan, earlier, later⟩ := ih further
      exact ⟨plan, submitAll_cons.mpr ⟨defined, taken, earlier⟩, later⟩

/-- What holds of a plan once the batches `done` have been submitted to the plan `base`. -/
structure Submitted (file : BuildFile) (base : Plan) (done : List (List String)) (plan : Plan) :
    Prop where
  gathered : plan.Gathered
  explored : base.Explored file.resolver (done.flatMap (·.map WorkItem.task)) plan
  known : plan.KnowsMembers
  nextOrdinal : plan.nextOrdinal = .ofPosition done.length
  joined : plan.IsJoined file.resolver plan.nextOrdinal
  requests : ∀ position batch, done[position]? = some batch → ∀ name ∈ batch,
    plan.Requests (.ofPosition position) (.task name)

theorem submitted_emptyPlan (begun : file.emptyPlan arguments = .ok base) :
    file.Submitted base [] base := by
  obtain ⟨fresh, unscheduled, first⟩ := isFresh_emptyPlan begun
  refine ⟨.fresh fresh unscheduled, fresh.explored file.resolver, fun item group present => ?_,
    first, fun item indexed => absurd indexed fresh.not_mem_index, by simp⟩
  rw [(fresh.clean item).group] at present
  cases present

namespace Submitted

variable {ordinal : Ordinal}

theorem take (submitted : file.Submitted base done plan)
    (taken : (plan.take file.resolver (.tasks batch none)).result = .ok ()) :
    file.Submitted base (done ++ [batch]) (plan.take file.resolver (.tasks batch none)).plan := by
  obtain ⟨gathered, explored, known, next, joined, requests⟩ := submitted
  have unmarked := Submission.tasks_unmarked batch none
  have isGathered := gathered.isGathered
  have unfinalized := isGathered.unfinalized
  have further : (plan.take file.resolver (.tasks batch none)).plan.nextOrdinal =
      plan.nextOrdinal.next := Plan.nextOrdinal_take_of_implicit unfinalized file.resolver rfl
  refine ⟨gathered.take file.avoidsMarkers_resolver unmarked taken, ?_,
    (known.take file.awaitsMembers_resolver explored taken).1, ?_, ?_, ?_⟩
  · rw [List.flatMap_append, List.flatMap_singleton]
    exact explored.take taken
  · rw [further, next, Ordinal.next_ofPosition, List.length_append, List.length_singleton]
  · rw [further]
    have joined : plan.IsJoined file.resolver (plan.ordinalFor (.tasks batch none)) := joined
    exact fun item indexed =>
      (joined.take isGathered.batched unmarked explored taken item indexed).imp_right
        fun due => due.mono (Ordinal.le_next _)
  · intro position other listed name member
    rcases Nat.lt_or_ge position done.length with earlier | behind
    · rw [List.getElem?_append_left earlier] at listed
      exact (requests position other listed name member).take unfinalized _ _
    · rw [List.getElem?_append_right behind, List.getElem?_singleton] at listed
      split at listed
      next here =>
        cases listed
        have last : position = done.length := by omega
        have requested : .task name ∈ (Submission.tasks batch none).requested :=
          List.mem_map_of_mem member
        rw [last, ← next]
        exact Plan.requests_take unfinalized file.resolver requested
      next => cases listed

/-- A new item comes into the batch that is being submitted, or into none if it is loose. -/
theorem enrolls (submitted : file.Submitted base done plan)
    (taken : (plan.take file.resolver (.tasks batch none)).result = .ok ())
    (unmet : item ∉ plan.index)
    (indexed : item ∈ (plan.take file.resolver (.tasks batch none)).plan.index) :
    (plan.take file.resolver (.tasks batch none)).plan.Enrolls file.resolver
      (.ofPosition done.length) item := by
  have isGathered := submitted.gathered.isGathered
  have ordinal : plan.ordinalFor (.tasks batch none) = .ofPosition done.length :=
    submitted.nextOrdinal
  rw [← ordinal]
  refine ⟨fun group present => ?_, ?_⟩
  · have admits := ((submitted.explored.take taken).mem_index_iff rfl |>.mp indexed).admits
    rcases (submitted.known.take file.awaitsMembers_resolver submitted.explored taken).2 item with
      kept | joined
    · have done := submitted.known item group (kept.symm.trans present)
      exact absurd (submitted.explored.mem_index done admits) unmet
    · rw [joined] at present
      cases present
      exact Fin.le_refl _
  · have joined : plan.IsJoined file.resolver (plan.ordinalFor (.tasks batch none)) :=
      submitted.joined
    exact joined.take isGathered.batched (Submission.tasks_unmarked batch none)
      submitted.explored taken item indexed

/-- Later batches leave that as it is. -/
theorem keeps_enrolls (submitted : file.Submitted base done plan)
    (taken : (plan.take file.resolver (.tasks batch none)).result = .ok ())
    (order : ordinal ≤ .ofPosition done.length)
    (enrolls : plan.Enrolls file.resolver ordinal item) :
    (plan.take file.resolver (.tasks batch none)).plan.Enrolls file.resolver ordinal item := by
  refine ⟨fun group present => ?_, enrolls.due.imp_right Plan.dueBy_take⟩
  rcases (submitted.known.take file.awaitsMembers_resolver submitted.explored taken).2 item with
    kept | joined
  · exact enrolls.late group (kept.symm.trans present)
  · have ordinal : plan.ordinalFor (.tasks batch none) = .ofPosition done.length :=
      submitted.nextOrdinal
    rw [joined, ordinal] at present
    cases present
    exact order

theorem submitAll (submitted : file.Submitted base done plan)
    (further : file.submitAll rest plan = .ok last) :
    file.Submitted base (done ++ rest) last ∧ ∀ ordinal item, ordinal ≤ .ofPosition done.length →
      plan.Enrolls file.resolver ordinal item → last.Enrolls file.resolver ordinal item := by
  induction rest generalizing done plan with
  | nil =>
      cases further
      rw [List.append_nil]
      exact ⟨submitted, fun _ _ _ => id⟩
  | cons batch rest ih =>
      obtain ⟨_, taken, later⟩ := submitAll_cons.mp further
      obtain ⟨all, keeps⟩ := ih (submitted.take taken) later
      rw [List.append_assoc, List.singleton_append] at all
      refine ⟨all, fun ordinal item order enrolls => ?_⟩
      refine keeps ordinal item (Fin.le_trans order (Ordinal.ofPosition_le ?_))
        (submitted.keeps_enrolls taken order enrolls)
      rw [List.length_append]
      exact Nat.le_add_right _ _

end Submitted

/-! ## Execution -/

/-- The item comes into the plan with the batch at `position`, and not with an earlier one. -/
def Enters (file : BuildFile) (arguments : Arguments) (position : Nat) (item : WorkItem) : Prop :=
  ∃ base before after, file.emptyPlan arguments = .ok base ∧
    file.submitAll ((file.batches arguments).take position) base = .ok before ∧
    file.submitAll ((file.batches arguments).take (position + 1)) base = .ok after ∧
    item ∉ before.index ∧ item ∈ after.index

theorem planFor_eq_ok (planned : file.planFor arguments = .ok plan) :
    ∃ base, file.emptyPlan arguments = .ok base ∧
      file.submitAll (file.batches arguments) base = .ok plan := by
  unfold planFor at planned
  split at planned
  · cases planned
  next base begun => exact ⟨base, begun, planned⟩

/-- What comes into a plan with a batch stays in it. -/
theorem Enters.enrolls (enters : file.Enters arguments position item)
    (planned : file.planFor arguments = .ok plan) :
    plan.Enrolls file.resolver (.ofPosition position) item := by
  obtain ⟨base, before, after, begun, first, more, unmet, indexed⟩ := enters
  obtain ⟨_, same, all⟩ := planFor_eq_ok planned
  rw [begun] at same
  cases same
  have submitted := ((submitted_emptyPlan begun).submitAll first).1
  rw [List.nil_append] at submitted
  rcases Nat.lt_or_ge position (file.batches arguments).length with inside | outside
  · have length : ((file.batches arguments).take position).length = position :=
      List.length_take_of_le (Nat.le_of_lt inside)
    rw [← List.take_append_drop (position + 1) (file.batches arguments)] at all
    obtain ⟨middle, met, later⟩ := exists_submitAll all
    cases Except.ok.inj (more.symm.trans met)
    rw [List.take_succ_eq_append_getElem inside] at more
    obtain ⟨middle, met, last⟩ := exists_submitAll more
    cases Except.ok.inj (first.symm.trans met)
    obtain ⟨_, taken, same⟩ := submitAll_cons.mp last
    cases Except.ok.inj same
    have enrolls := submitted.enrolls taken unmet indexed
    rw [length] at enrolls
    refine ((submitted.take taken).submitAll later).2 _ item (Ordinal.ofPosition_le ?_) enrolls
    rw [List.length_append, length]
    exact Nat.le_add_right _ _
  · rw [List.take_of_length_le outside] at first
    rw [List.take_of_length_le (Nat.le_succ_of_le outside), first] at more
    cases Except.ok.inj more
    exact absurd indexed unmet

theorem planFor_submitted (planned : file.planFor arguments = .ok plan) :
    ∃ base, file.Submitted base (file.batches arguments) plan := by
  obtain ⟨base, begun, all⟩ := planFor_eq_ok planned
  exact ⟨base, ((submitted_emptyPlan begun).submitAll all).1⟩

open Execution (start Plays)

/-- The tasks of a command line take their turns while all work succeeds. A task that comes into the
plan with one of them is in no earlier batch. While a requested task of an earlier batch has not
ended, it is handed out only if a finalizer needs it or a batch in front of its own does, and only if
neither it nor anything that it waits for is due in a batch behind that requested task. -/
theorem handed_out_in_turn {file : BuildFile} {arguments : Arguments} {plan : Plan}
    (planned : file.planFor arguments = .ok plan) {schedule : Schedule}
    (finalized : plan.finalize.result = .ok schedule) (name : String) (policy : FailurePolicy)
    (handlers : List String) {execution after : Execution}
    (plays : Plays (fun _ => .success) (start name schedule policy handlers) execution)
    {locks table : LockTable} {node : ScheduledNode}
    (selected : execution.select locks = (.ready node, after, table)) {task : String}
    (named : node.item = .task task) {position : Nat}
    (enters : file.Enters arguments position (.task task)) :
    (∀ group, (plan.finalize.plan.node (.task task)).group = some group →
      .ofPosition position ≤ group) ∧
    ∀ earlier batch, (file.batches arguments)[earlier]? = some batch → ∀ other ∈ batch,
      .task other ∈ schedule.items → (execution.state (.task other)).isTerminal = false →
        (Ordinal.ofPosition earlier < .ofPosition position → file.ServesFinalizer task ∨
          plan.finalize.plan.IsNeededBefore (.ofPosition position) (.task task)) ∧
        ∀ held ordinal, plan.finalize.plan.IsDue ordinal held →
          (held = .task task ∨ plan.finalize.plan.relationGraph.Reaches held (.task task)) →
            ordinal ≤ .ofPosition earlier := by
  obtain ⟨base, submitted⟩ := planFor_submitted planned
  obtain ⟨_, _, inventory⟩ := plan.finalize_cases
  have enrolls : plan.finalize.plan.Enrolls file.resolver (.ofPosition position) (.task task) := by
    rw [inventory]
    rcases plan.toInventory_determine with same | marked
    · rw [same]
      exact enters.enrolls planned
    · rw [marked]
      exact (enters.enrolls planned).withMarkers rfl
  refine ⟨enrolls.late, fun earlier batch listed other member scheduled unfinished => ?_⟩
  have behind : ∀ held ordinal, plan.finalize.plan.IsDue ordinal held →
      (held = .task task ∨ plan.finalize.plan.relationGraph.Reaches held (.task task)) →
        ordinal ≤ .ofPosition earlier := by
    intro held ordinal due waits
    refine Fin.not_lt.mp fun order => ?_
    obtain ⟨registered, inBatches, same, requested⟩ :=
      submitted.requests earlier batch listed other member
    have batches : plan.finalize.plan.batches = plan.batches :=
      (congrArg (·.batches) inventory).trans plan.batches_determine
    have ended := Execution.isTerminal_of_waits submitted.gathered finalized plays selected due
      (named ▸ waits) (batches ▸ inBatches) (same ▸ order) requested scheduled
    rw [unfinished] at ended
    cases ended
  refine ⟨fun order => ?_, behind⟩
  by_contra exempt
  obtain ⟨free, unneeded⟩ := not_or.mp exempt
  have own := enrolls.group_eq fun loose => free (servesFinalizer_of_isLoose loose rfl)
  have late := behind _ _ (Inventory.isDue_iff.mpr ⟨own, unneeded⟩) (.inl rfl)
  exact absurd order (Fin.not_lt.mpr late)

/-! ## An example -/

/-- A build whose staging area is cleaned behind staging, and whose report needs some data. -/
def release : BuildFile :=
  .ofParts {} []
    [("clean", { command := "rm" }),
      ("build", { command := "make", dependsOn := ["compile"], finalizedBy := ["report"] }),
      ("compile", { command := "cc" }),
      ("report", { command := "report", dependsOn := ["gather"] }),
      ("gather", { command := "gather" }),
      ("stage", { command := "stage", finalizedBy := ["clean"] })]

/-- The plan of the release for some of its tasks, one after the other. -/
def releasePlan (tasks : List String) : Plan :=
  tasks.foldl (fun plan task => (plan.submit release.resolver [task] none).plan)
    { accepts := TaskFilter.excluding [] }

def releaseSchedule : Schedule :=
  .ofNodes
    [{ item := .task "clean", group := some (.ofPosition 0), isEntry := true },
      { item := .marker (.ofPosition 1), group := some (.ofPosition 1), predecessors := [(.task "clean", .ordinal)] },
      { item := .task "compile", group := some (.ofPosition 1), predecessors := [(.marker (.ofPosition 1), .ordinal)] },
      { item := .task "build", group := some (.ofPosition 1),
        predecessors := [(.task "compile", .dependency), (.marker (.ofPosition 1), .ordinal)], isEntry := true },
      { item := .task "gather" },
      { item := .task "report",
        predecessors := [(.task "build", .finalizes), (.task "gather", .dependency)],
        finalizes := [.task "build"], isFinalizerOnly := true }]
    []

theorem servesFinalizer_release {task : String} (serves : release.ServesFinalizer task) :
    task ∈ ["report", "clean", "gather"] := by
  induction serves with
  | finalizer defined listed =>
      have finalizers : ∀ entry ∈ release.tasks, ∀ name ∈ entry.2.finalizedBy,
          name ∈ ["report", "clean", "gather"] := by decide
      exact finalizers _ (mem_of_lookup defined) _ listed
  | dependency _ defined listed parsed ih =>
      have dependencies : ∀ entry ∈ release.tasks, entry.1 ∈ ["report", "clean", "gather"] →
          ∀ text ∈ entry.2.dependsOn, (TaskReference.parse text).item ∈
            [.task "report", .task "clean", .task "gather"] := by decide
      have member := dependencies _ (mem_of_lookup defined) ih _ listed
      rw [parsed] at member
      simpa [TaskReference.item] using member

/-- The execution of the release, once the task that it begins with is done. -/
def releaseCleaned : Execution :=
  (((start "build" releaseSchedule .stop []).select {}).2.1.finishNode {} releaseSchedule.nodes[0]
    .success).1

theorem plays_releaseCleaned :
    Plays (fun _ => .success) (start "build" releaseSchedule .stop []) releaseCleaned := by
  have selects : (start "build" releaseSchedule .stop []).select {} =
      (.ready releaseSchedule.nodes[0],
        ((start "build" releaseSchedule .stop []).select {}).2.1, {}) := rfl
  have succeeds : ((start "build" releaseSchedule .stop []).select {}).2.1.finish? {}
      (.task "clean") .success = some (releaseCleaned, {}, []) := rfl
  exact .finish (.select .start selects) succeeds

theorem handed_out_in_turn_release :
    release.planFor { tasks := ["clean", "build"] } = .ok (releasePlan ["clean", "build"]) ∧
      releaseCleaned.select {} =
        (.ready releaseSchedule.nodes[2], (releaseCleaned.select {}).2.1, {}) ∧
      release.Enters { tasks := ["clean", "build"] } 1 (.task "compile") ∧
      (releaseCleaned.state (.task "clean")).isTerminal = true := by
  have planned : release.planFor { tasks := ["clean", "build"] } =
      .ok (releasePlan ["clean", "build"]) := rfl
  have finalized : (releasePlan ["clean", "build"]).finalize.result = .ok releaseSchedule := rfl
  have selected : releaseCleaned.select {} =
      (.ready releaseSchedule.nodes[2], (releaseCleaned.select {}).2.1, {}) := rfl
  have enters : release.Enters { tasks := ["clean", "build"] } 1 (.task "compile") :=
    ⟨_, releasePlan ["clean"], releasePlan ["clean", "build"], rfl, rfl, rfl, by decide, by decide⟩
  have due : (releasePlan ["clean", "build"]).finalize.plan.IsDue (.ofPosition 1)
      (.task "compile") := .of_edges rfl (by decide)
  refine ⟨planned, selected, enters, ?_⟩
  by_contra unfinished
  have turns := (handed_out_in_turn planned finalized "build" .stop [] plays_releaseCleaned selected
    rfl enters).2 0 ["clean"] rfl "clean" List.mem_cons_self (by decide)
    (Bool.eq_false_iff.mpr unfinished)
  rcases turns.1 (Ordinal.ofPosition_lt Nat.zero_lt_one (by decide)) with serves | needed
  · exact absurd (servesFinalizer_release serves) (by decide)
  · exact (Inventory.isDue_iff.mp due).2 needed

def stagedSchedule : Schedule :=
  .ofNodes
    [{ item := .task "gather" },
      { item := .task "stage", group := some (.ofPosition 2), isEntry := true },
      { item := .task "clean", group := some (.ofPosition 0), predecessors := [(.task "stage", .finalizes)],
        finalizes := [.task "stage"], isEntry := true },
      { item := .marker (.ofPosition 1), group := some (.ofPosition 1), predecessors := [(.task "clean", .ordinal)] },
      { item := .task "compile", group := some (.ofPosition 1), predecessors := [(.marker (.ofPosition 1), .ordinal)] },
      { item := .task "build", group := some (.ofPosition 1),
        predecessors := [(.task "compile", .dependency), (.marker (.ofPosition 1), .ordinal)], isEntry := true },
      { item := .task "report",
        predecessors := [(.task "build", .finalizes), (.task "gather", .dependency)],
        finalizes := [.task "build"], isFinalizerOnly := true },
      { item := .marker (.ofPosition 2), group := some (.ofPosition 2),
        predecessors := [(.task "build", .ordinal), (.marker (.ofPosition 1), .ordinal)] }]
    []

/-- The execution of the staged release, after as many selections as given. -/
def stagedStarted : Nat → Execution
  | 0 => start "build" stagedSchedule .stop []
  | count + 1 => ((stagedStarted count).select {}).2.1

/-- While the first task of a command line waits, a task may be handed out that comes into the plan
with the second one, where a finalizer needs it, and one that comes with the third one, since the
first one finalizes it. -/
theorem not_in_turn_staged :
    release.fault? = none ∧
    release.planFor { tasks := ["clean", "build", "stage"] } =
      .ok (releasePlan ["clean", "build", "stage"]) ∧
    (releasePlan ["clean", "build", "stage"]).finalize.result = .ok stagedSchedule ∧
    (release.batches { tasks := ["clean", "build", "stage"] })[0]? = some ["clean"] ∧
    .task "clean" ∈ stagedSchedule.items ∧
    (Plays (fun _ => .success) (start "build" stagedSchedule .stop []) (stagedStarted 0) ∧
      (stagedStarted 0).select {} = (.ready stagedSchedule.nodes[0], stagedStarted 1, {}) ∧
      release.Enters { tasks := ["clean", "build", "stage"] } 1 (.task "gather") ∧
      (stagedStarted 1).state (.task "clean") = .waiting) ∧
    Plays (fun _ => .success) (start "build" stagedSchedule .stop []) (stagedStarted 1) ∧
      (stagedStarted 1).select {} = (.ready stagedSchedule.nodes[1], stagedStarted 2, {}) ∧
      release.Enters { tasks := ["clean", "build", "stage"] } 2 (.task "stage") ∧
      (stagedStarted 2).state (.task "clean") = .waiting := by
  have first : (stagedStarted 0).select {} =
      (.ready stagedSchedule.nodes[0], stagedStarted 1, {}) := rfl
  have second : (stagedStarted 1).select {} =
      (.ready stagedSchedule.nodes[1], stagedStarted 2, {}) := rfl
  have gathers : release.Enters { tasks := ["clean", "build", "stage"] } 1 (.task "gather") :=
    ⟨_, releasePlan ["clean"], releasePlan ["clean", "build"], rfl, rfl, rfl, by decide, by decide⟩
  have stages : release.Enters { tasks := ["clean", "build", "stage"] } 2 (.task "stage") :=
    ⟨_, releasePlan ["clean", "build"], releasePlan ["clean", "build", "stage"], rfl, rfl, rfl,
      by decide, by decide⟩
  exact ⟨rfl, rfl, rfl, rfl, by decide, ⟨.start, first, gathers, rfl⟩,
    .select .start first, second, stages, rfl⟩

end BuildFile

end TaskPlanner
