import TaskPlanner.Glob
import TaskPlanner.Resolver

/-!
# Build files

A build file defines the tasks of a build, names the tasks of other builds that they
may refer to, and sets defaults for running them. `BuildFile.fault?` tells what is wrong
with one; a `ValidBuildFile` has nothing wrong with it, so every reference in it points
at something that is defined.

Cycles among tasks are not looked for here. They are found when a plan is made.
-/

set_option autoImplicit false

namespace TaskPlanner

/-! ## Contents -/

/-- Settings of the build itself. -/
structure BuildSection where
  name : String := "build"
  continueOnFailure : Bool := false
  exclude : List String := []
  maxWorkers : Option Nat := none
deriving DecidableEq, Repr, Inhabited

/-- What is known of another build. -/
structure IncludedBuild where
  tasks : List String := []
  executed : List String := []
deriving DecidableEq, Repr, Inhabited

/-- The definition of a task. -/
structure TaskDefinition where
  command : String
  dependsOn : List String := []
  finalizedBy : List String := []
  locks : List String := []
deriving DecidableEq, Repr, Inhabited

/-- Enter a value into a list that is ordered by name, in place of a value of that name. -/
def insertByName {α : Type} (name : String) (value : α) : List (String × α) → List (String × α)
  | [] => [(name, value)]
  | (other, present) :: rest =>
      if name = other then (name, value) :: rest
      else if name < other then (name, value) :: (other, present) :: rest
      else (other, present) :: insertByName name value rest

/-- Named values in the order of their names. Of several values for one name, the last one
counts. -/
def orderByName {α : Type} (entries : List (String × α)) : List (String × α) :=
  entries.foldl (fun ordered entry => insertByName entry.1 entry.2 ordered) []

/-- The contents of a build file. The other builds and the tasks are in the order of their
names. -/
structure BuildFile where
  build : BuildSection := {}
  included : List (String × IncludedBuild) := []
  tasks : List (String × TaskDefinition) := []
deriving DecidableEq, Repr, Inhabited

namespace BuildFile

/-- A build file with its parts in any order. -/
def ofParts (build : BuildSection) (included : List (String × IncludedBuild))
    (tasks : List (String × TaskDefinition)) : BuildFile where
  build
  included := orderByName included
  tasks := orderByName tasks

def task? (file : BuildFile) (name : String) : Option TaskDefinition := file.tasks.lookup name

def defines (file : BuildFile) (name : String) : Bool := (file.task? name).isSome

def taskNames (file : BuildFile) : List String := file.tasks.map (·.1)

def commands (file : BuildFile) : List (String × String) :=
  file.tasks.map fun (name, definition) => (name, definition.command)

/-- The tasks that no task refers to. They are what a run without further wishes is for. -/
def defaultTasks (file : BuildFile) : List String :=
  file.taskNames.filter fun name =>
    !file.tasks.any fun (_, definition) =>
      decide (name ∈ definition.dependsOn) || decide (name ∈ definition.finalizedBy)

end BuildFile

/-! ## References -/

/-- What a dependency refers to. -/
inductive TaskReference where
  | own (task : String)
  | other (build task : String)
deriving DecidableEq, Repr

namespace TaskReference

/-- The characters in front of the first colon, and those behind it if there is one. -/
def splitAtColon : List Char → List Char × Option (List Char)
  | [] => ([], none)
  | head :: rest =>
      if head = ':' then ([], some rest)
      else ((head :: (splitAtColon rest).1), (splitAtColon rest).2)

/-- Read a reference: another build and its task are joined by a colon, the first one. -/
def parse (text : String) : TaskReference :=
  match splitAtColon text.toList with
  | (_, none) => own text
  | (build, some task) => other (String.ofList build) (String.ofList task)

def item : TaskReference → WorkItem
  | own task => .task task
  | other build task => .delegated build task

end TaskReference

/-! ## Validity -/

/-- What can be wrong with a build file. -/
inductive BuildFault where
  | noTasks
  | noWorkers
  | invalidGlob (text : String) (fault : GlobFault)
  /-- A task of another build is said to be executed, but not to be one of its tasks. -/
  | undeclaredExecuted (build task : String)
  | unknownDependency (task dependency : String)
  | ownDependency (task : String)
  | undeclaredDependency (task dependency build : String)
  | unknownFinalizer (task finalizer : String)
  | ownFinalizer (task : String)
deriving DecidableEq, Repr

def BuildFault.message : BuildFault → String
  | noTasks => "build file must contain at least one [task.<name>] section"
  | noWorkers => "[build].max_workers must be >= 1 (got 0)"
  | invalidGlob text fault =>
      "[build].exclude has invalid glob '" ++ text ++ "': " ++ fault.messageFor text
  | undeclaredExecuted build task =>
      "included build '" ++ build ++ "' lists '" ++ task ++ "' as executed but not in \x60tasks\x60"
  | unknownDependency task dependency =>
      "task '" ++ task ++ "' has unknown dependency '" ++ dependency ++ "' in \x60depends_on\x60"
  | ownDependency task => "task '" ++ task ++ "' cannot depend on itself in \x60depends_on\x60"
  | undeclaredDependency task dependency build =>
      "task '" ++ task ++ "' depends on '" ++ dependency ++ "', which no [included." ++ build ++
        "] section declares"
  | unknownFinalizer task finalizer =>
      "task '" ++ task ++ "' has unknown finalizer '" ++ finalizer ++ "' in \x60finalized_by\x60"
  | ownFinalizer task => "task '" ++ task ++ "' cannot finalize itself"

namespace BuildFile

def declares (file : BuildFile) (build task : String) : Bool :=
  (file.included.lookup build).any fun included => decide (task ∈ included.tasks)

def hasExecuted (file : BuildFile) (build task : String) : Bool :=
  (file.included.lookup build).any fun included => decide (task ∈ included.executed)

def buildFault? (file : BuildFile) : Option BuildFault :=
  if file.build.maxWorkers = some 0 then some .noWorkers
  else
    match Glob.parseAll file.build.exclude with
    | .error (text, fault) => some (.invalidGlob text fault)
    | .ok _ => none

def includedFault? (build : String) (included : IncludedBuild) : Option BuildFault :=
  (included.executed.find? fun task => decide (task ∉ included.tasks)).map
    (.undeclaredExecuted build)

def dependencyFault? (file : BuildFile) (task dependency : String) : Option BuildFault :=
  match TaskReference.parse dependency with
  | .own name =>
      if !file.defines name then some (.unknownDependency task name)
      else if name = task then some (.ownDependency task)
      else none
  | .other build name =>
      if file.declares build name then none
      else some (.undeclaredDependency task dependency build)

def finalizerFault? (file : BuildFile) (task finalizer : String) : Option BuildFault :=
  if !file.defines finalizer then some (.unknownFinalizer task finalizer)
  else if finalizer = task then some (.ownFinalizer task)
  else none

def taskFault? (file : BuildFile) (task : String) (definition : TaskDefinition) :
    Option BuildFault :=
  (definition.dependsOn.findSome? (file.dependencyFault? task)).or
    (definition.finalizedBy.findSome? (file.finalizerFault? task))

/-- The first thing that is wrong with a build file. -/
def fault? (file : BuildFile) : Option BuildFault :=
  if file.tasks.isEmpty then some .noTasks
  else
    (file.buildFault?.or
      (file.included.findSome? fun (build, included) => includedFault? build included)).or
      (file.tasks.findSome? fun (task, definition) => file.taskFault? task definition)

end BuildFile

/-- A build file with nothing wrong with it. -/
structure ValidBuildFile extends BuildFile where
  fault?_eq_none : toBuildFile.fault? = none

def BuildFile.validate (file : BuildFile) : Except BuildFault ValidBuildFile :=
  match found : file.fault? with
  | some fault => .error fault
  | none => .ok { toBuildFile := file, fault?_eq_none := found }

/-! ## Resolution -/

namespace BuildFile

/-- The successor that a dependency states. A task of the build itself joins the batch; a
task of another build does not, and may have been executed there already. -/
def successor (file : BuildFile) (dependency : String) : Successor :=
  match TaskReference.parse dependency with
  | .own name => { item := .task name }
  | .other build name =>
      { item := .delegated build name, hard := false,
        alreadyExecuted := file.hasExecuted build name }

def resolution (file : BuildFile) (definition : TaskDefinition) : Resolution where
  successors := definition.dependsOn.map file.successor
  finalizers := definition.finalizedBy.map .task
  locks := definition.locks

/-- The relations of an item. Another build owns the relations of its tasks. -/
def answer (file : BuildFile) : WorkItem → Except ResolutionFault Resolution
  | .task name =>
      match file.task? name with
      | some definition => .ok (file.resolution definition)
      | none => .error (.unknownTask name)
  | .delegated _ _ => .ok {}
  | .marker _ => .ok {}

def mentionable (file : BuildFile) : List WorkItem :=
  file.tasks.flatMap fun (_, definition) => (file.resolution definition).mentioned

theorem mem_of_lookup {α : Type} {entries : List (String × α)} {name : String} {value : α}
    (found : entries.lookup name = some value) : (name, value) ∈ entries := by
  induction entries with
  | nil => cases found
  | cons entry rest ih =>
      obtain ⟨other, present⟩ := entry
      rw [List.lookup_cons] at found
      split at found
      · rename_i same
        have equal : name = other := by simpa using same
        cases found
        simp [equal]
      · exact List.mem_cons_of_mem _ (ih found)

theorem mentioned_subset {file : BuildFile} {item : WorkItem} {resolution : Resolution}
    (found : file.answer item = .ok resolution) :
    ∀ other ∈ resolution.mentioned, other ∈ file.mentionable := by
  intro other member
  cases item with
  | task name =>
      simp only [answer] at found
      split at found
      · rename_i definition selected
        cases found
        exact List.mem_flatMap.mpr ⟨(name, definition), mem_of_lookup selected, member⟩
      · cases found
  | delegated _ _ => cases found; simp [Resolution.mentioned] at member
  | marker _ => cases found; simp [Resolution.mentioned] at member

def resolver (file : BuildFile) : Resolver where
  answer := file.answer
  mentionable := file.mentionable
  mentioned_subset := mentioned_subset

/-- How many tasks a resolver that was asked about `items` has looked up in the file. -/
def lookedUp (file : BuildFile) (items : List WorkItem) : Nat :=
  ((items.filterMap WorkItem.taskName?).filter file.defines).eraseDups.length

end BuildFile

end TaskPlanner
