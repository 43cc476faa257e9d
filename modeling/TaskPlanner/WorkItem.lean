/-!
# Work items

A plan is about work items: tasks of the build at hand, tasks that another build
owns, and markers that separate two batches of requests. Every structure of the
library refers to work by its item; a number for an item exists only where one
is shown to a reader.

The module also fixes the one total order on items (`WorkItem.precedes`) and the
canonical list of a set of items (`WorkItem.arranged`).
-/

set_option autoImplicit false

namespace TaskPlanner

/-- Number of a batch of requests, a 32-bit word. -/
abbrev Ordinal := Fin 4294967296

/-- The ordinal of the first batch, if requests name none. -/
def Ordinal.first : Ordinal := 0

/-- The ordinal after `ordinal`. The largest ordinal is its own successor. -/
def Ordinal.next (ordinal : Ordinal) : Ordinal :=
  if fits : ordinal.val + 1 < 4294967296 then ⟨ordinal.val + 1, fits⟩ else ordinal

theorem Ordinal.le_next (ordinal : Ordinal) : ordinal ≤ ordinal.next := by
  unfold Ordinal.next
  split
  · exact Fin.le_def.mpr (Nat.le_succ _)
  · exact Nat.le_refl _

/-- A schedulable unit of work. -/
inductive WorkItem where
  | task (name : String)
  /-- The task `name` of another build, which runs it itself. -/
  | delegated (build name : String)
  | marker (ordinal : Ordinal)
deriving DecidableEq, Repr, Inhabited

namespace WorkItem

/-- The name of a task of the build at hand; the other items have none. -/
def taskName? : WorkItem → Option String
  | task name => some name
  | delegated _ _ => none
  | marker _ => none

theorem taskName?_eq_some_iff {item : WorkItem} {name : String} :
    item.taskName? = some name ↔ item = task name := by
  cases item <;> simp [taskName?]

def isMarker : WorkItem → Bool
  | marker _ => true
  | task _ => false
  | delegated _ _ => false

def isPublic (item : WorkItem) : Bool := !item.isMarker

def displayName : WorkItem → String
  | task name => name
  | delegated build name => build ++ ":" ++ name
  | marker ordinal => "<ordinal " ++ toString ordinal.val ++ ">"

/-- The strict order on items: tasks by name, then tasks of other builds by build and
name, then markers by ordinal. Names compare by code points. -/
def precedes : WorkItem → WorkItem → Bool
  | task left, task right => decide (left < right)
  | task _, _ => true
  | delegated _ _, task _ => false
  | delegated leftBuild left, delegated rightBuild right =>
      decide (leftBuild < rightBuild) ||
        (decide (leftBuild = rightBuild) && decide (left < right))
  | delegated _ _, marker _ => true
  | marker left, marker right => decide (left < right)
  | marker _, _ => false

/-- Insert an item into an ordered list, in front of the first item it precedes. -/
def insertOrdered (item : WorkItem) : List WorkItem → List WorkItem
  | [] => [item]
  | head :: rest =>
      if item.precedes head then item :: head :: rest else head :: insertOrdered item rest

/-- The items in order, each as often as it occurs. -/
def sorted (items : List WorkItem) : List WorkItem := items.foldr insertOrdered []

/-- Insert an item into an ordered list that does not hold it yet. -/
def insertDistinct (item : WorkItem) : List WorkItem → List WorkItem
  | [] => [item]
  | head :: rest =>
      if item = head then head :: rest
      else if item.precedes head then item :: head :: rest
      else head :: insertDistinct item rest

/-- The items in order, each once. The result depends only on which items occur. -/
def arranged (items : List WorkItem) : List WorkItem := items.foldr insertDistinct []

theorem mem_insertDistinct {item other : WorkItem} {items : List WorkItem} :
    other ∈ insertDistinct item items ↔ other = item ∨ other ∈ items := by
  induction items with
  | nil => simp [insertDistinct]
  | cons head rest ih =>
      unfold insertDistinct
      by_cases same : item = head
      · simp [same]
      · by_cases before : item.precedes head = true
        · simp [same, before]
        · rw [if_neg same, if_neg before, List.mem_cons, ih, List.mem_cons]
          exact or_left_comm

theorem mem_arranged {item : WorkItem} {items : List WorkItem} :
    item ∈ arranged items ↔ item ∈ items := by
  induction items with
  | nil => simp [arranged]
  | cons head rest ih =>
      show item ∈ insertDistinct head (arranged rest) ↔ _
      rw [mem_insertDistinct, ih, List.mem_cons]

end WorkItem

end TaskPlanner
