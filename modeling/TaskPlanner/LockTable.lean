import TaskPlanner.WorkItem

/-!
# Lock table

Named resources that a running item has for itself. A table is shared by all
executions of a session. An item may take a name again that it already holds, and
an item that asks for several names gets all of them or none.

Owners are compared as items. An item stands for its number in one catalog, so a table
is for plans that number their items in the same way, such as one plan that is used
again and again. Plans with catalogs of their own cannot share a table: a number would
mean another item in each of them.
-/

set_option autoImplicit false

namespace TaskPlanner

/-- The held names, each with the item that holds it. All holders are items of one catalog. -/
structure LockTable where
  held : List (String × WorkItem) := []
deriving DecidableEq, Repr, Inhabited

namespace LockTable

def holder? (table : LockTable) (name : String) : Option WorkItem := table.held.lookup name

def isFreeFor (table : LockTable) (owner : WorkItem) (name : String) : Bool :=
  (table.holder? name).all (· = owner)

def areFreeFor (table : LockTable) (owner : WorkItem) (names : List String) : Bool :=
  names.all (table.isFreeFor owner)

/-- Enter `owner` as the holder of `name`, unless the name has a holder. -/
def enter (table : LockTable) (owner : WorkItem) (name : String) : LockTable :=
  if (table.holder? name).isSome then table else { held := (name, owner) :: table.held }

/-- Enter `owner` as the holder of `names`. Meant for names that are free for `owner`. -/
def acquire (table : LockTable) (owner : WorkItem) (names : List String) : LockTable :=
  names.foldl (fun current name => current.enter owner name) table

/-- Take all of `names` for `owner`, or nothing if one of them is held by another. -/
def acquire? (table : LockTable) (owner : WorkItem) (names : List String) : Option LockTable :=
  if table.areFreeFor owner names then some (table.acquire owner names) else none

def release (table : LockTable) (owner : WorkItem) (names : List String) : LockTable :=
  { held := table.held.filter (fun entry => !(decide (entry.1 ∈ names) && decide (entry.2 = owner))) }

def size (table : LockTable) : Nat := table.held.length

end LockTable

end TaskPlanner
