import TaskPlanner.Proofs.BuildFile.Validity
import TaskPlanner.Proofs.Schedule.LinearExtension

/-! What a run without further wishes comes to. It schedules exactly what the default tasks lead to.
A task is missed only behind tasks that refer to each other in a circle, none of which is a default
task then, and behind a task whose name is also that of a task of another build. -/

set_option autoImplicit false

namespace TaskPlanner

namespace BuildFile

variable {file : BuildFile} {name task : String} {definition : TaskDefinition}
  {source target item : WorkItem} {base : Plan} {entries : List WorkItem} {arguments : Arguments}

/-! ## The tasks of a file -/

theorem mem_insertByName {α : Type} {value : α} {entries : List (String × α)}
    {entry : String × α} (member : entry ∈ insertByName name value entries) :
    entry = (name, value) ∨ entry ∈ entries := by
  induction entries with
  | nil => simpa [insertByName] using member
  | cons head rest ih =>
      unfold insertByName at member
      split at member
      · exact (List.mem_cons.mp member).imp_right (List.mem_cons_of_mem _)
      · split at member
        · exact List.mem_cons.mp member
        · rcases List.mem_cons.mp member with rfl | later
          · exact .inr List.mem_cons_self
          · exact (ih later).imp_right (List.mem_cons_of_mem _)

theorem pairwise_insertByName {α : Type} {value : α} {entries : List (String × α)}
    (ascending : entries.Pairwise fun earlier later => earlier.1 < later.1) :
    (insertByName name value entries).Pairwise fun earlier later => earlier.1 < later.1 := by
  induction entries with
  | nil => simp [insertByName]
  | cons head rest ih =>
      obtain ⟨first, later⟩ := List.pairwise_cons.mp ascending
      unfold insertByName
      split
      next same => exact List.pairwise_cons.mpr ⟨fun entry member => same ▸ first entry member, later⟩
      next different =>
        split
        next before =>
          refine List.pairwise_cons.mpr ⟨fun entry member => ?_, ascending⟩
          rcases List.mem_cons.mp member with rfl | behind
          · exact before
          · exact String.lt_trans before (first entry behind)
        next behind =>
          refine List.pairwise_cons.mpr ⟨fun entry member => ?_, ih later⟩
          rcases mem_insertByName member with rfl | present
          · by_contra unordered
            exact different (String.le_antisymm (String.not_lt.mp unordered)
              (String.not_lt.mp behind))
          · exact first entry present

/-- Parts in any order make a file that defines no task twice. -/
theorem nodup_taskNames_ofParts (build : BuildSection) (included : List (String × IncludedBuild))
    (tasks : List (String × TaskDefinition)) : (ofParts build included tasks).taskNames.Nodup := by
  have ascending : (orderByName tasks).Pairwise fun earlier later => earlier.1 < later.1 := by
    unfold orderByName
    refine List.foldlRecOn tasks _ List.Pairwise.nil fun entries ordered entry _ => ?_
    exact pairwise_insertByName ordered
  exact List.pairwise_map.mpr (ascending.imp String.ne_of_lt)

theorem task?_of_mem (distinct : file.taskNames.Nodup) (member : (name, definition) ∈ file.tasks) :
    file.task? name = some definition := by
  obtain ⟨earlier, later, split⟩ := List.append_of_mem member
  refine List.lookup_eq_some_iff.mpr ⟨earlier, later, split, fun entry before => ?_⟩
  unfold taskNames at distinct
  rw [split, List.map_append, List.map_cons, List.nodup_append] at distinct
  exact bne_iff_ne.mpr fun same =>
    distinct.2.2 _ (List.mem_map_of_mem before) _ List.mem_cons_self same.symm

/-! ## What the default tasks lead to -/

/-- The item is a default task, or one leads to it. -/
def Covers (file : BuildFile) (item : WorkItem) : Prop :=
  ∃ root ∈ file.defaultTasks, Relation.ReflTransGen file.resolver.Leads (.task root) item

/-- Of two items to which default tasks lead, the second has to wait for the first. -/
def CoveredPrecedes (file : BuildFile) (source target : WorkItem) : Prop :=
  file.Covers source ∧ file.Covers target ∧ file.resolver.Orders source target

/-- A task depends on one of another build that is written like the name. -/
def IsNamesake (file : BuildFile) (name : String) : Prop :=
  ∃ task definition, file.task? task = some definition ∧ name ∈ definition.dependsOn ∧
    ∃ build other, TaskReference.parse name = .other build other

theorem eq_of_parse_own {text : String} (parsed : TaskReference.parse text = .own name) :
    text = name := by
  unfold TaskReference.parse at parsed
  split at parsed
  · exact TaskReference.own.inj parsed
  · cases parsed

/-- A task that is no default task is one to which another task leads, or a namesake. -/
theorem exists_leads (distinct : file.taskNames.Nodup) (listed : name ∈ file.taskNames)
    (inner : name ∉ file.defaultTasks) (single : ¬ file.IsNamesake name) :
    ∃ task ∈ file.taskNames, file.resolver.Leads (.task task) (.task name) := by
  obtain ⟨task, definition, member, named⟩ : ∃ task definition,
      (task, definition) ∈ file.tasks ∧
        (name ∈ definition.dependsOn ∨ name ∈ definition.finalizedBy) := by
    simpa [defaultTasks, listed, or_iff_not_imp_left] using inner
  have defined := task?_of_mem distinct member
  have answered : file.resolver.answer (.task task) = .ok (file.resolution definition) := by
    simp [resolver, answer, defined]
  refine ⟨task, List.mem_map_of_mem (f := (·.1)) member, file.resolution definition, answered, ?_⟩
  rcases named with dependency | finalizer
  · refine .inl (mem_dependencies.mpr ⟨name, dependency, ?_⟩)
    cases parsed : TaskReference.parse name with
    | own other => rw [eq_of_parse_own parsed, TaskReference.item]
    | other build other =>
        exact absurd ⟨task, definition, defined, dependency, build, other, parsed⟩ single
  · exact .inr (List.mem_map_of_mem finalizer)

/-- The default tasks miss a task only behind a circle of references, or behind a namesake. The
references are followed backwards: without a circle, one of the tasks met has none behind it. -/
theorem exists_hidden (distinct : file.taskNames.Nodup) (listed : name ∈ file.taskNames)
    (missed : ¬ file.Covers (.task name)) :
    ∃ origin, Relation.ReflTransGen file.resolver.Leads (.task origin) (.task name) ∧
      (Relation.TransGen file.resolver.Leads (.task origin) (.task origin) ∨
        file.IsNamesake origin) := by
  by_contra visible
  have plain : ∀ origin, Relation.ReflTransGen file.resolver.Leads (.task origin) (.task name) →
      ¬ Relation.TransGen file.resolver.Leads (.task origin) (.task origin) ∧
        ¬ file.IsNamesake origin := fun origin leads =>
    not_or.mp fun hidden => visible ⟨origin, leads, hidden⟩
  classical
  let above := file.taskNames.filter fun origin =>
    Relation.ReflTransGen file.resolver.Leads (.task origin) (.task name)
  have mem_above : ∀ {origin}, origin ∈ above ↔ origin ∈ file.taskNames ∧
      Relation.ReflTransGen file.resolver.Leads (.task origin) (.task name) := by
    intro origin
    simp [above]
  obtain ⟨first, member, free⟩ : ∃ first ∈ above, ∀ other ∈ above,
      ¬ Relation.TransGen file.resolver.Leads (.task other) (.task first) :=
    Counting.exists_first (fun origin inside => (plain origin (mem_above.mp inside).2).1)
      (fun _ _ _ => Relation.TransGen.trans)
      (List.ne_nil_of_mem (mem_above.mpr ⟨listed, .refl⟩))
  obtain ⟨known, leads⟩ := mem_above.mp member
  have inner : first ∉ file.defaultTasks := fun root => missed ⟨first, root, leads⟩
  obtain ⟨origin, defined, behind⟩ := exists_leads distinct known inner (plain first leads).2
  exact free origin (mem_above.mpr ⟨defined, .head behind leads⟩) (.single behind)

/-! ## Plans without exclusions -/

theorem admits_emptyPlan (unfiltered : file.exclusions arguments = [])
    (begun : file.emptyPlan arguments = .ok base) (item : WorkItem) : base.Admits item := by
  unfold emptyPlan at begun
  rw [unfiltered] at begun
  cases begun
  refine ⟨?_, rfl⟩
  cases item <;> rfl

/-- Where nothing is left out, entries need whatever they lead to. -/
theorem needs_iff_of_admits (admits : ∀ item, base.Admits item) :
    base.Needs file.resolver entries item ↔
      ∃ entry ∈ entries, Relation.ReflTransGen file.resolver.Leads entry item := by
  constructor
  · intro needs
    induction needs with
    | entry requested _ => exact ⟨_, requested, .refl⟩
    | successor _ leads _ ih =>
        obtain ⟨entry, requested, steps⟩ := ih
        exact ⟨entry, requested, steps.tail leads⟩
  · rintro ⟨entry, requested, steps⟩
    induction steps with
    | refl => exact .entry requested (admits entry)
    | tail _ leads ih => exact .successor ih leads (admits _)

theorem needs_defaultTasks_iff (admits : ∀ item, base.Admits item) :
    base.Needs file.resolver (file.defaultTasks.map WorkItem.task) item ↔ file.Covers item := by
  rw [needs_iff_of_admits admits]
  simp [Covers]

theorem precedes_defaultTasks_iff (admits : ∀ item, base.Admits item) :
    base.Precedes file.resolver (file.defaultTasks.map WorkItem.task) source target ↔
      file.CoveredPrecedes source target := by
  unfold Plan.Precedes CoveredPrecedes
  rw [needs_defaultTasks_iff admits, needs_defaultTasks_iff admits]

/-- The schedule that a command line asks for, if there is one. -/
def scheduleFor (file : BuildFile) (arguments : Arguments) : Except PlanningError Schedule :=
  match file.planFor arguments with
  | .error error => .error error
  | .ok plan => plan.determine.result.mapError .plan

end BuildFile

open BuildFile (scheduleFor)

namespace ValidBuildFile

variable {file : ValidBuildFile} {arguments : Arguments}

/-- The default tasks are taken as one batch, unless what they lead to is cyclic. -/
theorem planFor_default_cases (unnamed : arguments.tasks = [])
    (unfiltered : file.exclusions arguments = []) :
    (∃ report, file.planFor arguments = .error (.plan (.cycle report)) ∧
      ∃ item, Relation.TransGen file.CoveredPrecedes item item) ∨
    ∃ base plan, file.planFor arguments = .ok plan ∧ (∀ item, base.Admits item) ∧
      Plan.Collects base file.resolver (file.defaultTasks.map WorkItem.task) plan ∧
      plan.needsOrdering = true := by
  obtain ⟨own, plain⟩ : file.build.exclude = [] ∧ arguments.exclude = [] :=
    List.append_eq_nil_iff.mp unfiltered
  have accepted : ∀ globs, Glob.parseAll file.build.exclude = .ok globs →
      TaskFilter.fault? globs = none := by
    rw [own]
    rintro _ ⟨⟩
    rfl
  obtain ⟨base, begun, planned⟩ := exists_planFor_eq plain accepted
  have admits := BuildFile.admits_emptyPlan unfiltered begun
  have batches : file.batches arguments = [file.defaultTasks] := by
    simp [BuildFile.batches, unnamed]
  have fresh := (BuildFile.isFresh_emptyPlan begun).1
  have cases := submitAll_cases (fresh.collects file.resolver) (by simp) (file.batches arguments)
  rw [planned]
  simp only [batches, List.nil_append, List.flatMap_singleton] at cases ⊢
  rcases cases with ⟨batch, listed, name, member, undefined, _⟩ | ⟨report, failed, item, cyclic⟩ |
    ⟨plan, submitted, collects, ordering⟩
  · have named := BuildFile.mem_tasks_of_batches (batches ▸ listed) member undefined
    rw [unnamed] at named
    cases named
  · refine .inl ⟨report, failed, item, Relation.TransGen.mono (fun _ _ => ?_) _ _ cyclic⟩
    exact (BuildFile.precedes_defaultTasks_iff admits).mp
  · exact .inr ⟨base, plan, submitted, admits, collects, ordering (.inr (by simp))⟩

/-- A run without further wishes is for what the default tasks lead to. It is refused exactly if
some of that waits for itself, and schedules all of it otherwise. A task that is not scheduled is
behind a circle of references, or behind a namesake of a task of another build. -/
theorem default_request_coverage (file : ValidBuildFile) (arguments : Arguments)
    (distinct : file.taskNames.Nodup) (unnamed : arguments.tasks = [])
    (unfiltered : file.exclusions arguments = []) :
    (∀ error, file.scheduleFor arguments = .error error →
      ∃ report, error = .plan (.cycle report)) ∧
    ((∃ schedule, file.scheduleFor arguments = .ok schedule) ↔
      ∀ item, ¬ Relation.TransGen file.CoveredPrecedes item item) ∧
    ∀ schedule, file.scheduleFor arguments = .ok schedule → ∀ name ∈ file.taskNames,
      (.task name ∈ schedule.items ↔ file.Covers (.task name)) ∧
      (.task name ∉ schedule.items →
        ∃ origin, Relation.ReflTransGen file.resolver.Leads (.task origin) (.task name) ∧
          (Relation.TransGen file.resolver.Leads (.task origin) (.task origin) ∨
            file.IsNamesake origin)) := by
  unfold scheduleFor
  rcases planFor_default_cases unnamed unfiltered with ⟨report, failed, item, cyclic⟩ |
    ⟨base, plan, planned, admits, collects, ordering⟩
  · rw [failed]
    refine ⟨?_, ⟨by simp, fun acyclic => absurd cyclic (acyclic item)⟩, by simp⟩
    rintro _ ⟨⟩
    exact ⟨report, rfl⟩
  · rw [planned]
    dsimp only
    simp only [mapError_eq_ok_iff, mapError_eq_error_iff]
    refine ⟨?_, ?_, fun schedule succeeded name listed => ?_⟩
    · rintro _ ⟨cause, failed, rfl⟩
      obtain ⟨report, rfl⟩ := Plan.cycle_of_determine failed
      exact ⟨report, rfl⟩
    · have same : base.Precedes file.resolver (file.defaultTasks.map WorkItem.task) =
          file.CoveredPrecedes :=
        funext₂ fun _ _ => propext (BuildFile.precedes_defaultTasks_iff admits)
      rw [← same]
      exact collects.exists_determine_iff file.avoidsMarkers_resolver ordering
    · rw [Plan.result_determine ordering, mapError_eq_ok_iff] at succeeded
      have exact : .task name ∈ schedule.items ↔ file.Covers (.task name) := by
        rw [(Inventory.extends_schedule succeeded).exact,
          plan.toInventory.marks_withMarkers.index, ← BuildFile.needs_defaultTasks_iff admits,
          ← collects.mem_index_iff]
        simp
      refine ⟨exact, fun missed => ?_⟩
      rw [exact] at missed
      exact BuildFile.exists_hidden distinct listed missed

/-! ## An example -/

/-- A build in which two tasks depend on each other. -/
def clockwork : ValidBuildFile where
  toBuildFile := .ofParts {} []
    [("deploy", { command := "deploy", dependsOn := ["check"] }), ("check", { command := "check" }),
      ("tick", { command := "tick", dependsOn := ["tock"] }),
      ("tock", { command := "tock", dependsOn := ["tick"] })]
  fault?_eq_none := by rfl

theorem default_request_coverage_clockwork :
    clockwork.taskNames.Nodup ∧ clockwork.exclusions {} = [] ∧
    ∃ schedule, clockwork.scheduleFor {} = .ok schedule ∧
      schedule.items = [.task "check", .task "deploy"] ∧
      clockwork.Covers (.task "check") ∧
      ∃ origin, Relation.ReflTransGen clockwork.resolver.Leads (.task origin) (.task "tock") ∧
        (Relation.TransGen clockwork.resolver.Leads (.task origin) (.task origin) ∨
          clockwork.IsNamesake origin) := by
  have distinct : clockwork.taskNames.Nodup := BuildFile.nodup_taskNames_ofParts _ _ _
  have coverage := default_request_coverage clockwork {} distinct rfl rfl
  obtain ⟨schedule, scheduled, items⟩ : ∃ schedule, clockwork.scheduleFor {} = .ok schedule ∧
      schedule.items = [.task "check", .task "deploy"] := ⟨_, rfl, rfl⟩
  refine ⟨distinct, rfl, schedule, scheduled, items, ?_, ?_⟩
  · refine (coverage.2.2 schedule scheduled "check" (by decide)).1.mp ?_
    rw [items]
    exact List.mem_cons_self
  · refine (coverage.2.2 schedule scheduled "tock" (by decide)).2 ?_
    rw [items]
    decide

/-- A valid file all of whose tasks wait for each other comes to an empty schedule, though the same
tasks are refused for their cycle as soon as one of them is named. -/
theorem not_covered_circle :
    let circle := BuildFile.ofParts {} [] [("a", { command := "true", dependsOn := ["b"] }),
      ("b", { command := "true", dependsOn := ["a"] })]
    circle.fault? = none ∧ circle.defines "a" = true ∧ circle.exclusions {} = [] ∧
      (∃ schedule, circle.scheduleFor {} = .ok schedule ∧ schedule.items = []) ∧
      circle.scheduleFor { tasks := ["a"] } =
        .error (.plan (.cycle (.path [.task "a", .task "b", .task "a"]))) :=
  ⟨rfl, rfl, rfl, ⟨_, rfl, rfl⟩, rfl⟩

end ValidBuildFile

end TaskPlanner
