import TaskPlanner.Resolver

/-!
# Resolvers from rows

A resolver that answers from a list of rows, one for each item it knows, and a resolver
that answers from single declarations.
-/

set_option autoImplicit false

namespace TaskPlanner

/-- The answer about one item. -/
structure ResolverRow where
  item : WorkItem
  answer : Except ResolutionFault Resolution := .ok {}

namespace ResolverRow

def mentioned (row : ResolverRow) : List WorkItem :=
  match row.answer with
  | .ok resolution => resolution.mentioned
  | .error _ => []

/-- The answer about `item`: that of the last row for it, and no relations without one. -/
def answerFor (rows : List ResolverRow) (item : WorkItem) : Except ResolutionFault Resolution :=
  match rows.reverse.find? (·.item = item) with
  | some row => row.answer
  | none => .ok {}

theorem mentioned_subset {rows : List ResolverRow} {item : WorkItem} {resolution : Resolution}
    (found : answerFor rows item = .ok resolution) :
    ∀ other ∈ resolution.mentioned, other ∈ rows.flatMap mentioned := by
  intro other member
  unfold answerFor at found
  split at found
  · rename_i row selected
    have present := List.mem_reverse.mp (List.mem_of_find?_eq_some selected)
    exact List.mem_flatMap.mpr ⟨row, present, by simpa [mentioned, found] using member⟩
  · cases found
    simp [Resolution.mentioned] at member

end ResolverRow

/-- The resolver that answers from `rows`. -/
def Resolver.ofRows (rows : List ResolverRow) : Resolver where
  answer := ResolverRow.answerFor rows
  mentionable := rows.flatMap ResolverRow.mentioned
  mentioned_subset := ResolverRow.mentioned_subset

/-- One statement about a task of the build at hand. -/
inductive Declaration where
  /-- The task depends on the other, which joins its batch. -/
  | dependency (task other : String)
  /-- The task depends on the other, which keeps out of its batch. -/
  | softDependency (task other : String)
  | delegatedDependency (task build other : String)
  | finalizer (task other : String)
  | lock (task name : String)
  | failing (task : String)
deriving DecidableEq, Repr

namespace Declaration

def task : Declaration → String
  | dependency task _ => task
  | softDependency task _ => task
  | delegatedDependency task _ _ => task
  | finalizer task _ => task
  | lock task _ => task
  | failing task => task

def successor? : Declaration → Option Successor
  | dependency _ other => some { item := .task other }
  | softDependency _ other => some { item := .task other, hard := false }
  | delegatedDependency _ build other => some { item := .delegated build other, hard := false }
  | finalizer _ _ | lock _ _ | failing _ => none

def finalizer? : Declaration → Option WorkItem
  | finalizer _ other => some (.task other)
  | _ => none

def lock? : Declaration → Option String
  | lock _ name => some name
  | _ => none

def row (declarations : List Declaration) (task : String) : ResolverRow :=
  let own := declarations.filter (·.task = task)
  { item := .task task
    answer :=
      if decide (failing task ∈ own) then .error (.failure ("scripted failure for " ++ task))
      else
        .ok
          { successors := own.filterMap successor?
            finalizers := own.filterMap finalizer?
            locks := own.filterMap lock? } }

end Declaration

def Resolver.ofDeclarations (declarations : List Declaration) : Resolver :=
  .ofRows (declarations.map fun declaration => Declaration.row declarations declaration.task)

end TaskPlanner
