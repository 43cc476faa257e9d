import TaskPlanner.BuildFile.Planning
import TaskPlanner.Proofs.BuildFile.Resolution
import TaskPlanner.Proofs.Plan.CycleRejection
import TaskPlanner.Proofs.Plan.Operations

/-! Validation makes resolution total. A valid file has an answer for every item that its tasks lead
to, so that a plan for it fails only for a name that was made up on the command line, or for a
cycle. -/

set_option autoImplicit false

namespace TaskPlanner

open Plan (Collects)

namespace BuildFile

variable {file : BuildFile} {name : String} {item : WorkItem} {base plan : Plan}
  {entries : List WorkItem} {arguments : Arguments}

/-- The item is a task of the file, or no task of this build. -/
def Knows (file : BuildFile) (item : WorkItem) : Prop :=
  ∀ name, item = .task name → file.defines name = true

theorem Knows.task (defined : file.defines name = true) : file.Knows (.task name) := by
  rintro _ ⟨⟩
  exact defined

theorem Knows.exists_answer (knows : file.Knows item) :
    ∃ resolution, file.resolver.answer item = .ok resolution := by
  cases item with
  | task name =>
      obtain ⟨definition, defined⟩ := Option.isSome_iff_exists.mp (knows name rfl)
      exact ⟨file.resolution definition, by simp [resolver, answer, defined]⟩
  | delegated build task => exact ⟨{}, rfl⟩
  | marker ordinal => exact ⟨{}, rfl⟩

theorem defines_of_mem_taskNames (listed : name ∈ file.taskNames) : file.defines name = true := by
  obtain ⟨⟨_, definition⟩, member, rfl⟩ := List.mem_map.mp listed
  by_contra undefined
  have absent := List.lookup_eq_none_iff.mp (Option.not_isSome_iff_eq_none.mp undefined)
  simpa using absent _ member

/-- Without a task on the command line, only tasks of the file are submitted. -/
theorem mem_tasks_of_batches {batch : List String} (listed : batch ∈ file.batches arguments)
    (member : name ∈ batch) (undefined : file.defines name = false) : name ∈ arguments.tasks := by
  unfold batches at listed
  split at listed
  · cases List.mem_singleton.mp listed
    rw [defines_of_mem_taskNames (List.mem_filter.mp member).1] at undefined
    cases undefined
  · obtain ⟨task, named, rfl⟩ := List.mem_map.mp listed
    cases List.mem_singleton.mp member
    exact named

/-- The plan to begin with is fresh. -/
theorem isFresh_emptyPlan (begun : file.emptyPlan arguments = .ok base) :
    base.IsFresh ∧ base.schedule? = none ∧ base.nextOrdinal = .first := by
  unfold emptyPlan at begun
  split at begun
  · cases begun
  · cases begun
    exact ⟨⟨rfl, rfl, fun _ => ⟨rfl, rfl, rfl, rfl, rfl⟩⟩, rfl, rfl⟩

/-- Some tasks of the file wait for themselves. -/
def IsCyclic (file : BuildFile) : Prop :=
  ∃ item, Relation.TransGen file.resolver.Orders item item

theorem isCyclic_of_precedes (cyclic : ∃ item,
    Relation.TransGen (base.Precedes file.resolver entries) item item) : file.IsCyclic :=
  cyclic.imp fun _ => Relation.TransGen.mono (fun _ _ precedes => precedes.2.2) _ _

/-- An ordering of tasks of the file gives a schedule, unless it meets a cycle. -/
def Schedules (file : BuildFile) (result : Except PlanError Schedule) : Prop :=
  (∃ schedule, result = .ok schedule) ∨ file.IsCyclic ∧ ∃ report, result = .error (.cycle report)

theorem batches_ne_nil (file : BuildFile) (arguments : Arguments) : file.batches arguments ≠ [] := by
  unfold batches
  split
  next => simp
  next some => simpa using some

end BuildFile

namespace ValidBuildFile

variable {file : ValidBuildFile} {name : String} {definition : TaskDefinition}
  {source target item : WorkItem} {base plan : Plan} {entries : List WorkItem}
  {batches : List (List String)} {arguments : Arguments}

/-! ## What a valid file knows -/

theorem taskFault?_eq_none (defined : file.task? name = some definition) :
    file.taskFault? name definition = none := by
  have faultless := file.fault?_eq_none
  unfold BuildFile.fault? at faultless
  split at faultless
  · cases faultless
  · exact List.findSome?_eq_none_iff.mp (Option.or_eq_none_iff.mp faultless).2
      (name, definition) (BuildFile.mem_of_lookup defined)

theorem exists_parseAll (file : ValidBuildFile) :
    ∃ globs, Glob.parseAll file.build.exclude = .ok globs := by
  have faultless := file.fault?_eq_none
  unfold BuildFile.fault? at faultless
  split at faultless
  · cases faultless
  · have sound := (Option.or_eq_none_iff.mp (Option.or_eq_none_iff.mp faultless).1).1
    unfold BuildFile.buildFault? at sound
    split at sound
    · cases sound
    · split at sound
      next => cases sound
      next globs parsed => exact ⟨globs, parsed⟩

theorem knows_of_dependsOn (defined : file.task? name = some definition) {text : String}
    (listed : text ∈ definition.dependsOn) : file.Knows (TaskReference.parse text).item := by
  have faultless := (Option.or_eq_none_iff.mp (taskFault?_eq_none defined)).1
  have sound := List.findSome?_eq_none_iff.mp faultless text listed
  unfold BuildFile.dependencyFault? at sound
  cases parsed : TaskReference.parse text with
  | own task =>
      rw [parsed] at sound
      dsimp only at sound
      split at sound
      next => cases sound
      next defined => exact .task (by simpa using defined)
  | other build task =>
      rintro _ ⟨⟩

theorem defines_of_finalizedBy (defined : file.task? name = some definition) {finalizer : String}
    (listed : finalizer ∈ definition.finalizedBy) : file.defines finalizer = true := by
  have faultless := (Option.or_eq_none_iff.mp (taskFault?_eq_none defined)).2
  have sound := List.findSome?_eq_none_iff.mp faultless finalizer listed
  unfold BuildFile.finalizerFault? at sound
  split at sound
  next => cases sound
  next defined => simpa using defined

theorem knows_of_leads (leads : file.resolver.Leads source target) : file.Knows target := by
  obtain ⟨resolution, answered, related⟩ := leads
  rcases BuildFile.answer_cases answered with rfl | ⟨name, definition, _, defined, rfl⟩
  · rcases related with dependency | finalizer
    · cases dependency
    · cases finalizer
  · rcases related with dependency | finalizer
    · obtain ⟨text, listed, rfl⟩ := BuildFile.mem_dependencies.mp dependency
      exact knows_of_dependsOn defined listed
    · obtain ⟨finalizer, listed, rfl⟩ := List.mem_map.mp finalizer
      exact .task (defines_of_finalizedBy defined listed)

theorem knows_of_needs (known : ∀ item ∈ entries, file.Knows item)
    (needs : base.Needs file.resolver entries item) : file.Knows item := by
  cases needs with
  | entry requested _ => exact known item requested
  | successor _ leads _ => exact knows_of_leads leads

/-! ## Requests -/

/-- Batches are taken one after the other, up to a name that the file does not define or a cycle. -/
theorem submitAll_cases (collects : Collects base file.resolver entries plan)
    (known : ∀ item ∈ entries, file.Knows item) (batches : List (List String)) :
    (∃ batch ∈ batches, ∃ name ∈ batch, file.defines name = false ∧
      file.submitAll batches plan = .error (.plan (.unknownTask name))) ∨
    (∃ report, file.submitAll batches plan = .error (.plan (.cycle report)) ∧
      ∃ item, Relation.TransGen (base.Precedes file.resolver
        (entries ++ batches.flatMap (·.map WorkItem.task))) item item) ∨
    ∃ last, file.submitAll batches plan = .ok last ∧
      Collects base file.resolver (entries ++ batches.flatMap (·.map WorkItem.task)) last ∧
      (plan.needsOrdering = true ∨ batches ≠ [] → last.needsOrdering = true) := by
  induction batches generalizing plan entries with
  | nil =>
      rw [List.flatMap_nil, List.append_nil]
      exact .inr (.inr ⟨plan, rfl, collects, fun either => either.resolve_right fun some => some rfl⟩)
  | cons batch rest ih =>
      rw [List.flatMap_cons, ← List.append_assoc]
      unfold BuildFile.submitAll
      split
      next name unknown =>
        refine .inl ⟨batch, List.mem_cons_self, name, List.mem_of_find?_eq_some unknown, ?_, rfl⟩
        simpa using List.find?_some unknown
      next defined =>
        have now : ∀ item ∈ batch.map WorkItem.task, file.Knows item := by
          rintro _ member
          obtain ⟨name, listed, rfl⟩ := List.mem_map.mp member
          exact .task (by simpa using List.find?_eq_none.mp defined name listed)
        have further := List.forall_mem_append.mpr ⟨known, now⟩
        have taken : (∃ report, (plan.submit file.resolver batch none).result =
              .error (.cycle report) ∧ ∃ item, Relation.TransGen (base.Precedes file.resolver
                (entries ++ batch.map WorkItem.task)) item item) ∨
            (plan.submit file.resolver batch none).result = .ok () ∧
              Collects base file.resolver (entries ++ batch.map WorkItem.task)
                (plan.submit file.resolver batch none).plan ∧
              (plan.submit file.resolver batch none).plan.needsOrdering = true :=
          collects.take (fun item needs => (knows_of_needs further needs).exists_answer)
            (Submission.tasks_unmarked batch none)
        rcases taken with ⟨report, failed, item, cyclic⟩ | ⟨succeeded, next, ordering⟩
        · dsimp only
          rw [failed]
          refine .inr (.inl ⟨report, rfl, item, ?_⟩)
          exact Relation.TransGen.mono
            (fun _ _ => Plan.Precedes.mono (List.subset_append_left _ _)) _ _ cyclic
        · dsimp only
          rw [succeeded]
          rcases ih next further with ⟨other, listed, unknown⟩ | stopped | ⟨last, submitted, all, kept⟩
          · exact .inl ⟨other, List.mem_cons_of_mem _ listed, unknown⟩
          · exact .inr (.inl stopped)
          · exact .inr (.inr ⟨last, submitted, all, fun _ => kept (.inl ordering)⟩)

/-- With globs that pass, a plan is begun and all batches are submitted to it. -/
theorem exists_planFor_eq (plain : arguments.exclude = [])
    (accepted : ∀ globs, Glob.parseAll file.build.exclude = .ok globs →
      TaskFilter.fault? globs = none) :
    ∃ base, file.emptyPlan arguments = .ok base ∧
      file.planFor arguments = file.submitAll (file.batches arguments) base := by
  obtain ⟨globs, parsed⟩ := file.exists_parseAll
  have filter : TaskFilter.globs (file.exclusions arguments) = .ok globs := by
    unfold BuildFile.exclusions TaskFilter.globs
    rw [plain, List.append_nil, parsed]
    dsimp only
    rw [accepted globs parsed]
  have begun : ∃ base, file.emptyPlan arguments = .ok base := by
    unfold BuildFile.emptyPlan
    rw [filter]
    exact ⟨_, rfl⟩
  obtain ⟨base, begun⟩ := begun
  refine ⟨base, begun, ?_⟩
  unfold BuildFile.planFor
  rw [begun]

theorem schedules_determine (collects : Collects base file.resolver entries plan)
    (ordering : plan.needsOrdering = true) : file.Schedules plan.determine.result := by
  cases determined : plan.determine.result with
  | ok schedule => exact .inl ⟨schedule, rfl⟩
  | error error =>
      obtain ⟨report, rfl⟩ := Plan.cycle_of_determine determined
      refine .inr ⟨?_, report, rfl⟩
      by_contra acyclic
      obtain ⟨schedule, succeeded⟩ := (collects.exists_determine_iff file.avoidsMarkers_resolver
        ordering).mpr fun item cyclic => acyclic (BuildFile.isCyclic_of_precedes ⟨item, cyclic⟩)
      rw [determined] at succeeded
      cases succeeded

/-- Validation makes resolution total. Without exclusions on the command line, and if the filter
takes the globs of the file, planning fails only for a name on the command line that the file does
not define or for a cycle of its tasks. The plan can then be put in order and handed out, unless
there is a cycle. -/
theorem planFor_cases (file : ValidBuildFile) (arguments : Arguments)
    (plain : arguments.exclude = [])
    (accepted : ∀ globs, Glob.parseAll file.build.exclude = .ok globs →
      TaskFilter.fault? globs = none) :
    (∃ name ∈ arguments.tasks, file.defines name = false ∧
      file.planFor arguments = .error (.plan (.unknownTask name))) ∨
    (file.IsCyclic ∧ ∃ report, file.planFor arguments = .error (.plan (.cycle report))) ∨
    ∃ plan, file.planFor arguments = .ok plan ∧
      file.Schedules plan.determine.result ∧ file.Schedules plan.finalize.result := by
  obtain ⟨base, begun, planned⟩ := exists_planFor_eq plain accepted
  rw [planned]
  have fresh := (BuildFile.isFresh_emptyPlan begun).1
  have nothing : ∀ item ∈ ([] : List WorkItem), file.Knows item := by simp
  rcases submitAll_cases (fresh.collects file.resolver) nothing (file.batches arguments) with
    ⟨batch, listed, name, member, undefined, failed⟩ | ⟨report, failed, cyclic⟩ |
      ⟨plan, submitted, collects, ordering⟩
  · exact .inl ⟨name, BuildFile.mem_tasks_of_batches listed member undefined, undefined, failed⟩
  · exact .inr (.inl ⟨BuildFile.isCyclic_of_precedes cyclic, report, failed⟩)
  · have schedules := schedules_determine collects
      (ordering (.inr (file.batches_ne_nil arguments)))
    refine .inr (.inr ⟨plan, submitted, schedules, ?_⟩)
    rw [plan.finalize_cases.1]
    exact schedules

/-! ## An example -/

/-- A build that leaves out its drafts, and needs a task of another build. -/
def exampleFile : ValidBuildFile where
  toBuildFile := .ofParts { exclude := ["draft*"] } [("lib", { tasks := ["jar"] })]
    [("site", { command := "site", dependsOn := ["draft-post", "pages"], finalizedBy := ["clean"] }),
      ("pages", { command := "pages", dependsOn := ["lib:jar"] }),
      ("draft-post", { command := "post" }), ("clean", { command := "rm" })]
  fault?_eq_none := by rfl

theorem planFor_cases_site :
    (∀ globs, Glob.parseAll exampleFile.build.exclude = .ok globs →
      TaskFilter.fault? globs = none) ∧
    ∃ plan, exampleFile.planFor { tasks := ["pages", "site"] } = .ok plan ∧
      exampleFile.Schedules plan.finalize.result := by
  have accepted : ∀ globs, Glob.parseAll exampleFile.build.exclude = .ok globs →
      TaskFilter.fault? globs = none := by
    rintro _ ⟨⟩
    rfl
  refine ⟨accepted, ?_⟩
  rcases planFor_cases exampleFile { tasks := ["pages", "site"] } rfl accepted with
    ⟨name, named, undefined, _⟩ | ⟨_, report, failed⟩ | ⟨plan, planned, _, finalized⟩
  · have known : ∀ name ∈ ["pages", "site"], exampleFile.defines name = true := by decide
    rw [known name named] at undefined
    cases undefined
  · cases failed
  · exact ⟨plan, planned, finalized⟩

end ValidBuildFile

end TaskPlanner
