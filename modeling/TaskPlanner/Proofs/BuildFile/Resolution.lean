import TaskPlanner.BuildFile
import TaskPlanner.Proofs.Plan.Joining
import TaskPlanner.Proofs.Plan.Retention

/-! What a build file tells about its tasks. The dependencies on tasks of the build itself are hard,
so that only finalizers come into a plan without joining a batch, with what they need. -/

set_option autoImplicit false

namespace TaskPlanner

namespace BuildFile

variable {file : BuildFile} {item : WorkItem} {definition : TaskDefinition} {name : String}

/-- The task finalizes another one, or a task that does so depends on it. -/
inductive ServesFinalizer (file : BuildFile) : String → Prop where
  | finalizer {task name : String} {definition : TaskDefinition} :
      file.task? task = some definition → name ∈ definition.finalizedBy → ServesFinalizer file name
  | dependency {task name text : String} {definition : TaskDefinition} :
      ServesFinalizer file task → file.task? task = some definition →
      text ∈ definition.dependsOn → TaskReference.parse text = .own name → ServesFinalizer file name

/-- Only the tasks of the build have relations. -/
theorem answer_cases {resolution : Resolution}
    (answered : file.resolver.answer item = .ok resolution) :
    resolution = {} ∨ ∃ task definition, item = .task task ∧ file.task? task = some definition ∧
      resolution = file.resolution definition := by
  cases item with
  | task task =>
      have found : file.answer (.task task) = .ok resolution := answered
      unfold answer at found
      dsimp only at found
      split at found
      next definition defined =>
        cases found
        exact .inr ⟨task, definition, rfl, defined, rfl⟩
      next => cases found
  | delegated build task =>
      cases answered
      exact .inl rfl
  | marker ordinal =>
      cases answered
      exact .inl rfl

theorem item_successor (file : BuildFile) (text : String) :
    (file.successor text).item = (TaskReference.parse text).item := by
  unfold successor
  cases TaskReference.parse text <;> rfl

theorem awaited_successor (file : BuildFile) (text : String) :
    (file.successor text).awaited = true := by
  unfold successor
  cases TaskReference.parse text <;> rfl

theorem mem_dependencies : item ∈ (file.resolution definition).relations.dependencies ↔
    ∃ text ∈ definition.dependsOn, (TaskReference.parse text).item = item := by
  simp only [resolution, Resolution.relations, List.mem_map, List.mem_filter]
  constructor
  · rintro ⟨_, ⟨⟨text, listed, rfl⟩, _⟩, rfl⟩
    exact ⟨text, listed, (file.item_successor text).symm⟩
  · rintro ⟨text, listed, rfl⟩
    exact ⟨_, ⟨⟨text, listed, rfl⟩, file.awaited_successor text⟩, file.item_successor text⟩

/-- Dependencies on tasks of the build itself are hard. -/
theorem mem_hardSuccessors : item ∈ (file.resolution definition).relations.hardSuccessors ↔
    ∃ text ∈ definition.dependsOn, ∃ name, TaskReference.parse text = .own name ∧
      item = .task name := by
  simp only [resolution, Resolution.relations, List.mem_map, List.mem_filter]
  constructor
  · rintro ⟨_, ⟨⟨text, listed, rfl⟩, hard⟩, rfl⟩
    refine ⟨text, listed, ?_⟩
    unfold successor at hard ⊢
    cases parsed : TaskReference.parse text with
    | own name => exact ⟨name, rfl, rfl⟩
    | other build name =>
        rw [parsed] at hard
        cases hard
  · rintro ⟨text, listed, name, parsed, rfl⟩
    have same : file.successor text = { item := .task name } := by
      unfold successor
      rw [parsed]
    exact ⟨_, ⟨⟨text, listed, same⟩, rfl⟩, rfl⟩

theorem awaitsMembers_resolver (file : BuildFile) : file.resolver.AwaitsMembers := by
  intro item resolution answered other member
  rcases answer_cases answered with rfl | ⟨task, definition, rfl, _, rfl⟩
  · cases member
  · obtain ⟨text, listed, name, parsed, rfl⟩ := mem_hardSuccessors.mp member
    exact mem_dependencies.mpr ⟨text, listed, by rw [parsed]; rfl⟩

theorem avoidsMarkers_resolver (file : BuildFile) : file.resolver.AvoidsMarkers := by
  intro item resolution answered other mentioned
  rcases answer_cases answered with rfl | ⟨task, definition, rfl, _, rfl⟩
  · cases mentioned
  · rcases List.mem_append.mp mentioned with successor | finalizer
    · obtain ⟨_, listed, rfl⟩ := List.mem_map.mp successor
      obtain ⟨text, _, rfl⟩ := List.mem_map.mp listed
      rw [item_successor]
      cases TaskReference.parse text <;> rfl
    · obtain ⟨name, _, rfl⟩ := List.mem_map.mp finalizer
      rfl

/-- A task that joins no batch is there for a finalizer. -/
theorem servesFinalizer_of_isLoose (loose : file.resolver.IsLoose item)
    (same : item = .task name) : file.ServesFinalizer name := by
  induction loose generalizing name with
  | @finalizer source target resolution answered member =>
      rcases answer_cases answered with rfl | ⟨task, definition, _, defined, rfl⟩
      · cases member
      · obtain ⟨finalizer, listed, named⟩ := List.mem_map.mp member
        cases named.trans same
        exact .finalizer defined listed
  | @soft source target resolution answered member soft =>
      rcases answer_cases answered with rfl | ⟨task, definition, _, _, rfl⟩
      · cases member
      · obtain ⟨text, listed, named⟩ := mem_dependencies.mp member
        refine absurd (mem_hardSuccessors.mpr ⟨text, listed, ?_⟩) soft
        rw [← named]
        cases parsed : TaskReference.parse text with
        | own name => exact ⟨name, rfl, rfl⟩
        | other build name =>
            rw [parsed, same] at named
            cases named
  | @dependency source target resolution _ answered member ih =>
      rcases answer_cases answered with rfl | ⟨task, definition, rfl, defined, rfl⟩
      · cases member
      · obtain ⟨text, listed, named⟩ := mem_dependencies.mp member
        refine .dependency (ih rfl) defined listed ?_
        cases parsed : TaskReference.parse text with
        | own name =>
            rw [parsed, same] at named
            cases named
            rfl
        | other build name =>
            rw [parsed, same] at named
            cases named

end BuildFile

end TaskPlanner
