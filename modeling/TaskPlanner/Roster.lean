import TaskPlanner.Catalog
import TaskPlanner.PlanError

/-!
# Rosters

A roster lists items under their numbers, in order of insertion. It answers without going
through the list: one table beside it holds the listed numbers, another the number of each
listed task. An entry that is cut off leaves both tables, the second one by the name of its
task.

The numbers come from a catalog. A register is a catalog together with a roster of some of
its items.
-/

set_option autoImplicit false

namespace TaskPlanner

/-- What a roster notes about one item. -/
structure RosterEntry where
  number : Nat
  /-- The name of the item, if it is a task of the build at hand. -/
  task? : Option String
  isPublic : Bool
deriving DecidableEq, Repr

def RosterEntry.of (number : Nat) (item : WorkItem) : RosterEntry :=
  { number, task? := item.taskName?, isPublic := item.isPublic }

/-- Items by number in order of insertion, and the tables that questions are answered from. -/
structure Roster where
  entries : List RosterEntry := []
  /-- The listed numbers. -/
  members : List Nat := []
  /-- The names of the listed tasks, each with the number of its task. -/
  tasks : List (String × Nat) := []
deriving DecidableEq, Repr, Inhabited

namespace Roster

def contains (roster : Roster) (number : Nat) : Bool := number ∈ roster.members

/-- The number of the task `name`. -/
def find (roster : Roster) (name : String) : Except PlanError Nat :=
  match roster.tasks.lookup name with
  | some number => .ok number
  | none => .error (.notPlanned name)

def numbers (roster : Roster) : List Nat := roster.entries.map (·.number)

def taskNames (roster : Roster) : List String := roster.entries.filterMap (·.task?)

def publicSize (roster : Roster) : Nat := roster.entries.countP (·.isPublic)

def size (roster : Roster) : Nat := roster.entries.length

def isEmpty (roster : Roster) : Bool := roster.entries.isEmpty

/-- List `item` under `number` behind the others, and tell whether this is new. -/
def add (roster : Roster) (number : Nat) (item : WorkItem) : Bool × Roster :=
  if roster.contains number then (false, roster)
  else
    (true,
      { entries := roster.entries ++ [.of number item]
        members := number :: roster.members
        tasks := match item.taskName? with
          | some name => (name, number) :: roster.tasks.filter (·.1 ≠ name)
          | none => roster.tasks })

/-- Take an entry out of the tables. -/
def strike (roster : Roster) (entry : RosterEntry) : Roster :=
  { roster with
    members := roster.members.filter (· ≠ entry.number)
    tasks := match entry.task? with
      | some name => roster.tasks.filter (·.1 ≠ name)
      | none => roster.tasks }

/-- Cut the roster back to its first `count` entries, and tell the numbers of the others. -/
def keepFirst (roster : Roster) (count : Nat) : List Nat × Roster :=
  if roster.entries.length ≤ count then ([], roster)
  else
    let removed := roster.entries.drop count
    (removed.map (·.number),
      removed.foldl strike { roster with entries := roster.entries.take count })

end Roster

/-- A catalog, and a roster of some of its items. -/
structure Register where
  catalog : Catalog := {}
  roster : Roster := {}
deriving DecidableEq, Repr, Inhabited

namespace Register

/-- Change the node of `item`, which is mentioned if it was not. -/
def update (register : Register) (item : WorkItem) (change : Node → Node) : Register :=
  { register with catalog := register.catalog.update item change }

/-- Mention `item` and list it under its number, and tell whether it was not listed. -/
def add (register : Register) (item : WorkItem) : Bool × Register :=
  let (isNew, roster) := register.roster.add (register.catalog.numberFor item) item
  (isNew, { catalog := register.catalog.intern item, roster })

def keepFirst (register : Register) (count : Nat) : List Nat × Register :=
  let (removed, roster) := register.roster.keepFirst count
  (removed, { register with roster })

def clear (register : Register) : Register := { register with roster := {} }

end Register

end TaskPlanner
