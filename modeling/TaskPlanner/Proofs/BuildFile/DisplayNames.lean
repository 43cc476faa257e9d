import TaskPlanner.Execution.Drain
import TaskPlanner.Execution.Summary
import TaskPlanner.Proofs.BuildFile.CommandLine
import TaskPlanner.Proofs.Schedule.LinearExtension

/-! Lookups by display name. The name of a task of another build contains the colon at which
references are read, but so may the name of a task of the build at hand. Two items of a schedule
share a name only in this way, and then a lookup finds the one that is scheduled first. -/

set_option autoImplicit false

namespace TaskPlanner

/-! ## References -/

namespace TaskReference

variable {build name text : String}

theorem splitAtColon_append {front back : List Char} (bare : ':' ∉ front) :
    splitAtColon (front ++ ':' :: back) = (front, some back) := by
  induction front with
  | nil => rfl
  | cons head front ih =>
      obtain ⟨other, rest⟩ := not_or.mp (mt List.mem_cons.mpr bare)
      rw [List.cons_append, splitAtColon, if_neg (Ne.symm other), ih rest]

theorem not_mem_of_splitAtColon (text : List Char) : ':' ∉ (splitAtColon text).1 := by
  induction text with
  | nil => simp [splitAtColon]
  | cons head rest ih =>
      unfold splitAtColon
      split
      · simp
      next other => simp [Ne.symm other, ih]

/-- A task of another build is read back from its name. -/
theorem parse_join (bare : ':' ∉ build.toList) : parse (build ++ ":" ++ name) = .other build name := by
  have split : (build ++ ":" ++ name).toList = build.toList ++ ':' :: name.toList := by simp
  unfold parse
  rw [split, splitAtColon_append bare]
  simp

/-- A reference is read at its first colon, so that no colon is left in the name of the build. -/
theorem not_mem_of_parse (parsed : parse text = .other build name) : ':' ∉ build.toList := by
  unfold parse at parsed
  split at parsed
  · cases parsed
  next front back split =>
    cases parsed
    have bare := not_mem_of_splitAtColon text.toList
    rw [split] at bare
    simpa using bare

end TaskReference

/-! ## Names -/

namespace WorkItem

variable {left right item : WorkItem}

/-- The name of another build contains no colon. -/
def HasBareBuild (item : WorkItem) : Prop :=
  ∀ build name, item = .delegated build name → ':' ∉ build.toList

/-- One of the items is a task of the build that is called like the other, a task of another
build. -/
inductive Clashes : WorkItem → WorkItem → Prop where
  | own (build name : String) : Clashes (.task (build ++ ":" ++ name)) (.delegated build name)
  | other (build name : String) : Clashes (.delegated build name) (.task (build ++ ":" ++ name))

theorem Clashes.displayName_eq (clashes : left.Clashes right) :
    left.displayName = right.displayName := by
  cases clashes <;> rfl

theorem Clashes.ne (clashes : left.Clashes right) : left ≠ right := by
  cases clashes <;> exact WorkItem.noConfusion

theorem Clashes.isPublic (clashes : left.Clashes right) :
    left.isPublic = true ∧ right.isPublic = true := by
  cases clashes <;> exact ⟨rfl, rfl⟩

theorem Clashes.isSome_taskName? (clashes : left.Clashes right) :
    right.taskName?.isSome = !left.taskName?.isSome := by
  cases clashes <;> rfl

/-- No three items clash with each other. -/
theorem Clashes.not_clashes {middle : WorkItem} (first : left.Clashes middle)
    (second : middle.Clashes right) : ¬ left.Clashes right := by
  intro third
  have same := third.isSome_taskName?
  rw [second.isSome_taskName?, first.isSome_taskName?, Bool.not_not] at same
  exact absurd same (by cases left.taskName?.isSome <;> decide)

/-- Different items share a name only if they clash. -/
theorem eq_or_clashes (leftBare : left.HasBareBuild) (rightBare : right.HasBareBuild)
    (leftPublic : left.isPublic = true) (rightPublic : right.isPublic = true)
    (same : left.displayName = right.displayName) : left = right ∨ left.Clashes right := by
  match left, right with
  | .task _, .task _ => exact .inl (congrArg task same)
  | .task name, .delegated build other =>
      obtain rfl : name = build ++ ":" ++ other := same
      exact .inr (.own build other)
  | .delegated build other, .task name =>
      obtain rfl : build ++ ":" ++ other = name := same
      exact .inr (.other build other)
  | .delegated build name, .delegated build' name' =>
      have read : TaskReference.parse (build ++ ":" ++ name) = .other build name :=
        TaskReference.parse_join (leftBare build name rfl)
      rw [show build ++ ":" ++ name = build' ++ ":" ++ name' from same,
        TaskReference.parse_join (rightBare build' name' rfl)] at read
      cases read
      exact .inl rfl
  | .marker _, _ => cases leftPublic
  | .task _, .marker _ | .delegated _ _, .marker _ => cases rightPublic

end WorkItem

/-! ## Lookups -/

namespace Schedule

variable {schedule : Schedule} {ahead behind : List WorkItem} {item : WorkItem} {name : String}

/-- The items that are shown to a reader, in order. -/
def shown (schedule : Schedule) : List WorkItem := schedule.items.filter WorkItem.isPublic

theorem order_eq (schedule : Schedule) : schedule.order = schedule.shown.map (·.displayName) := by
  unfold order shown items
  rw [List.filter_map, List.map_map]
  rfl

theorem mem_shown : item ∈ schedule.shown ↔ item ∈ schedule.items ∧ item.isPublic = true :=
  List.mem_filter

/-- Lookups of the name find the item: its position in the order, and its state whenever one of the
executions of the schedule is summed up. -/
structure Finds (schedule : Schedule) (name : String) (position : Nat) (item : WorkItem) : Prop where
  position : schedule.position? name = some position
  state : ∀ execution : Execution, execution.schedule = schedule →
    execution.summary.stateOf? name = some (execution.state item)

/-- A lookup finds the first item of the name. -/
theorem finds_first (split : schedule.shown = ahead ++ item :: behind)
    (named : item.displayName = name) (first : ∀ other ∈ ahead, other.displayName ≠ name) :
    schedule.Finds name ahead.length item := by
  constructor
  · have none : (ahead.map (·.displayName)).findIdx? (· = name) = none := by
      simpa [List.findIdx?_eq_none_iff] using first
    rw [position?, order_eq, split, List.map_append, List.map_cons, List.findIdx?_append, none,
      List.findIdx?_cons]
    simp [named]
  · intro execution runs
    unfold Execution.summary Summary.stateOf?
    rw [runs, show schedule.items.filter WorkItem.isPublic = _ from split, List.map_append,
      List.map_cons, named]
    refine List.lookup_eq_some_iff.mpr ⟨_, _, rfl, fun entry member => ?_⟩
    obtain ⟨other, listed, rfl⟩ := List.mem_map.mp member
    exact bne_iff_ne.mpr fun same => first other listed same.symm

/-- All names are different, unless two of the items clash. -/
theorem nodup_order_iff (distinct : schedule.items.Nodup)
    (bare : ∀ item ∈ schedule.shown, item.HasBareBuild) :
    schedule.order.Nodup ↔
      ∀ left ∈ schedule.items, ∀ right ∈ schedule.items, ¬ left.Clashes right := by
  have once : schedule.shown.Nodup := distinct.filter _
  rw [order_eq, List.nodup_map_iff_inj_on once]
  constructor
  · intro injective left leftListed right rightListed clashes
    have leftShown := mem_shown.mpr ⟨leftListed, clashes.isPublic.1⟩
    have rightShown := mem_shown.mpr ⟨rightListed, clashes.isPublic.2⟩
    exact clashes.ne (injective left leftShown right rightShown clashes.displayName_eq)
  · intro apart left leftShown right rightShown same
    obtain ⟨leftListed, leftPublic⟩ := mem_shown.mp leftShown
    obtain ⟨rightListed, rightPublic⟩ := mem_shown.mp rightShown
    have either := WorkItem.eq_or_clashes (bare left leftShown) (bare right rightShown) leftPublic
      rightPublic same
    exact either.resolve_right (apart left leftListed right rightListed)

/-- In front of a shown item, only an item that clashes with it has its name. -/
theorem clashes_of_displayName_eq (distinct : schedule.items.Nodup)
    (bare : ∀ item ∈ schedule.shown, item.HasBareBuild)
    (split : schedule.shown = ahead ++ item :: behind) {other : WorkItem} (member : other ∈ ahead)
    (same : other.displayName = item.displayName) : other.Clashes item := by
  have otherShown : other ∈ schedule.shown := split ▸ List.mem_append_left _ member
  have itemShown : item ∈ schedule.shown :=
    split ▸ List.mem_append_right _ List.mem_cons_self
  have either := WorkItem.eq_or_clashes (bare other otherShown) (bare item itemShown)
    (mem_shown.mp otherShown).2 (mem_shown.mp itemShown).2 same
  refine either.resolve_left ?_
  rintro rfl
  have once : schedule.shown.Nodup := distinct.filter _
  rw [split, List.nodup_append] at once
  exact once.2.2 other member other List.mem_cons_self rfl

end Schedule

/-! ## Schedules for a build file -/

namespace BuildFile

variable {file : BuildFile} {source target item : WorkItem} {base : Plan} {entries : List WorkItem}

theorem hasBareBuild_of_leads (leads : file.resolver.Leads source target) :
    target.HasBareBuild := by
  obtain ⟨resolution, answered, related⟩ := leads
  rcases answer_cases answered with rfl | ⟨task, definition, _, _, rfl⟩
  · rcases related with dependency | finalizer
    · cases dependency
    · cases finalizer
  · rcases related with dependency | finalizer
    · obtain ⟨text, _, rfl⟩ := mem_dependencies.mp dependency
      intro build name same
      cases parsed : TaskReference.parse text with
      | own other =>
          rw [parsed] at same
          cases same
      | other build' name' =>
          rw [parsed] at same
          cases same
          exact TaskReference.not_mem_of_parse parsed
    · obtain ⟨finalizer, _, rfl⟩ := List.mem_map.mp finalizer
      rintro _ _ ⟨⟩

theorem hasBareBuild_of_needs (tasks : ∀ item ∈ entries, item.HasBareBuild)
    (needs : base.Needs file.resolver entries item) : item.HasBareBuild := by
  cases needs with
  | entry requested _ => exact tasks item requested
  | successor _ leads _ => exact hasBareBuild_of_leads leads

/-- Only tasks that the file defines are submitted. -/
theorem defines_of_submitAll {batches : List (List String)} {plan last : Plan}
    (submitted : file.submitAll batches plan = .ok last) :
    ∀ batch ∈ batches, ∀ name ∈ batch, file.defines name = true := by
  induction batches generalizing plan with
  | nil => simp
  | cons batch rest ih =>
      obtain ⟨defined, _, further⟩ := submitAll_cons.mp submitted
      intro other listed name member
      rcases List.mem_cons.mp listed with rfl | later
      · simpa using List.find?_eq_none.mp defined name member
      · exact ih further other later name member

end BuildFile

namespace ValidBuildFile

variable {file : ValidBuildFile} {arguments : Arguments} {plan : Plan} {schedule : Schedule}
  {left right item : WorkItem}

/-- What is shown of a schedule are tasks that the file defines, and tasks that it refers to. -/
theorem shown_sound (planned : file.planFor arguments = .ok plan)
    (finalized : plan.finalize.result = .ok schedule) :
    schedule.items.Nodup ∧ ∀ item ∈ schedule.shown, file.Knows item ∧ item.HasBareBuild := by
  unfold BuildFile.planFor at planned
  split at planned
  · cases planned
  next base begun =>
    have fresh := (BuildFile.isFresh_emptyPlan begun).1
    rcases submitAll_cases (fresh.collects file.resolver) (by simp) (file.batches arguments) with
      ⟨_, _, name, _, _, failed⟩ | ⟨report, failed, _⟩ | ⟨last, submitted, collects, ordering⟩
    · cases planned.symm.trans failed
    · cases planned.symm.trans failed
    · cases planned.symm.trans submitted
      have ordered := ordering (.inr (file.batches_ne_nil arguments))
      rw [plan.finalize_cases.1, Plan.result_determine ordered, mapError_eq_ok_iff] at finalized
      have sound := Inventory.extends_schedule finalized
      refine ⟨sound.distinct, fun item listed => ?_⟩
      obtain ⟨scheduled, shown⟩ := Schedule.mem_shown.mp listed
      have indexed : item ∈ plan.index := by
        rw [sound.exact, plan.toInventory.marks_withMarkers.index] at scheduled
        refine scheduled.resolve_right ?_
        rintro ⟨ordinal, _, rfl⟩
        cases shown
      have needs := collects.mem_index_iff.mp indexed
      have requested : ∀ entry ∈ [] ++ (file.batches arguments).flatMap (·.map WorkItem.task),
          file.Knows entry ∧ entry.HasBareBuild := by
        intro entry member
        obtain ⟨batch, taken, inside⟩ := List.mem_flatMap.mp member
        obtain ⟨name, named, rfl⟩ := List.mem_map.mp inside
        exact ⟨.task (BuildFile.defines_of_submitAll submitted batch taken name named), nofun⟩
      exact ⟨knows_of_needs (fun entry member => (requested entry member).1) needs,
        BuildFile.hasBareBuild_of_needs (fun entry member => (requested entry member).2) needs⟩

/-- The display names of a plan for a valid file are different, unless a task of the file is called
like a scheduled task of another build. A lookup of a name finds the item of that name, in whatever
state the execution is, unless such an item is scheduled in front of it; then it finds that one. -/
theorem lookups_by_name (file : ValidBuildFile) (arguments : Arguments) {plan : Plan}
    {schedule : Schedule} (planned : file.planFor arguments = .ok plan)
    (finalized : plan.finalize.result = .ok schedule) :
    (schedule.order.Nodup ↔
      ∀ left ∈ schedule.items, ∀ right ∈ schedule.items, ¬ left.Clashes right) ∧
    ((∀ name, file.defines name = true → ':' ∉ name.toList) → schedule.order.Nodup) ∧
    ∀ ahead item behind, schedule.items.filter WorkItem.isPublic = ahead ++ item :: behind →
      ((∀ other ∈ ahead, ¬ other.Clashes item) →
        schedule.Finds item.displayName ahead.length item) ∧
      ∀ front other back, ahead = front ++ other :: back → other.Clashes item →
        schedule.Finds item.displayName front.length other := by
  obtain ⟨distinct, sound⟩ := shown_sound planned finalized
  have bare := fun item listed => (sound item listed).2
  refine ⟨Schedule.nodup_order_iff distinct bare, fun plain => ?_, ?_⟩
  · refine (Schedule.nodup_order_iff distinct bare).mpr fun left leftListed right rightListed => ?_
    have colon : ∀ build name : String, ':' ∈ (build ++ ":" ++ name).toList := by simp
    intro clashes
    cases clashes with
    | own build name =>
        have defined := (sound _ (Schedule.mem_shown.mpr ⟨leftListed, rfl⟩)).1 _ rfl
        exact plain _ defined (colon build name)
    | other build name =>
        have defined := (sound _ (Schedule.mem_shown.mpr ⟨rightListed, rfl⟩)).1 _ rfl
        exact plain _ defined (colon build name)
  · intro ahead item behind split
    constructor
    · intro apart
      have first : ∀ other ∈ ahead, other.displayName ≠ item.displayName := fun other member same =>
        apart other member (Schedule.clashes_of_displayName_eq distinct bare split member same)
      exact Schedule.finds_first split rfl first
    · rintro front other back rfl clashes
      have splitToo : schedule.shown = front ++ other :: (back ++ item :: behind) := by
        rw [← List.cons_append, ← List.append_assoc]
        exact split
      have first : ∀ earlier ∈ front, earlier.displayName ≠ item.displayName := by
        intro earlier member same
        have third := Schedule.clashes_of_displayName_eq distinct bare split
          (List.mem_append_left _ member) same
        have second := Schedule.clashes_of_displayName_eq distinct bare splitToo member
          (same.trans clashes.displayName_eq.symm)
        exact second.not_clashes clashes third
      exact Schedule.finds_first splitToo clashes.displayName_eq first

/-! ## An example -/

/-- A build with a task that is called like the task of another build on which it depends. -/
def shadedFile : ValidBuildFile where
  toBuildFile := .ofParts {} [("lib", { tasks := ["jar"] })]
    [("app", { command := "app", dependsOn := ["lib:jar"] }), ("lib:jar", { command := "jar" })]
  fault?_eq_none := by rfl

/-- The plan for both of the tasks. -/
def shadedPlan : Plan := (shadedFile.planFor { tasks := ["app", "lib:jar"] }).toOption.getD {}

def shadedSchedule : Schedule := shadedPlan.finalize.result.toOption.getD {}

/-- Of the two items of one name, lookups find the task of the other build, which comes first. -/
theorem lookups_by_name_shaded :
    shadedFile.planFor { tasks := ["app", "lib:jar"] } = .ok shadedPlan ∧
      shadedPlan.finalize.result = .ok shadedSchedule ∧
      shadedSchedule.Finds "app" 1 (.task "app") ∧
      shadedSchedule.Finds "lib:jar" 0 (.delegated "lib" "jar") := by
  have planned : shadedFile.planFor { tasks := ["app", "lib:jar"] } = .ok shadedPlan := rfl
  have finalized : shadedPlan.finalize.result = .ok shadedSchedule := rfl
  have items : shadedSchedule.items.filter WorkItem.isPublic =
      [.delegated "lib" "jar", .task "app", .task "lib:jar"] := rfl
  obtain ⟨_, _, lookups⟩ := lookups_by_name shadedFile _ planned finalized
  refine ⟨planned, finalized, ?_, ?_⟩
  · refine (lookups [.delegated "lib" "jar"] (.task "app") _ items).1 fun other member clashes => ?_
    cases List.mem_singleton.mp member
    exact absurd clashes.displayName_eq (by decide)
  · exact (lookups [.delegated "lib" "jar", .task "app"] (.task "lib:jar") _ items).2 [] _ _ rfl
      (.other "lib" "jar")

/-- The execution in which the task of the build fails. -/
def shadedRun : Execution :=
  ((Execution.start "build" shadedSchedule .stop []).drain {} fun node =>
    if node.item = .task "lib:jar" then .failed 1 else .success).execution

/-- The task of the build has failed, and the lookup by its name tells that it succeeded. -/
theorem not_found_by_name :
    shadedFile.planFor { tasks := ["app", "lib:jar"] } = .ok shadedPlan ∧
      shadedPlan.finalize.result = .ok shadedSchedule ∧
      shadedSchedule.order = ["lib:jar", "app", "lib:jar"] ∧
      shadedSchedule.position? "lib:jar" = some 0 ∧
      shadedRun.state (.task "lib:jar") = .failed 1 ∧
      shadedRun.summary.stateOf? "lib:jar" = some .succeeded :=
  ⟨rfl, rfl, rfl, rfl, by decide +kernel, by decide +kernel⟩

end ValidBuildFile

end TaskPlanner
