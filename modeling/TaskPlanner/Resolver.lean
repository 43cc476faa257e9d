import TaskPlanner.Catalog

/-!
# Resolvers

A plan asks a resolver for the direct relations of each item it visits. During one
expansion an item is asked about at most once, so a resolver is a function of the
item; a plan is given its resolver anew with every request, so the answers may differ
from one request to the next.

The items that a resolver can mention are finitely many and listed, which bounds the
length of an expansion.
-/

set_option autoImplicit false

namespace TaskPlanner

/-- Why the relations of an item could not be told. -/
inductive ResolutionFault where
  | unknownTask (name : String)
  | failure (text : String)
  | missingPosition (position : Nat)
deriving DecidableEq, Repr

def ResolutionFault.message : ResolutionFault → String
  | unknownTask name => "Unknown task: " ++ name
  | failure text => text
  | missingPosition position =>
      "references precomputed node " ++ toString position ++ ", which does not exist"

/-- One item that a resolved item refers to. -/
structure Successor where
  item : WorkItem
  hard : Bool := true
  awaited : Bool := true
  alreadyExecuted : Bool := false
deriving DecidableEq, Repr

/-- What a resolver tells about one item. -/
structure Resolution where
  successors : List Successor := []
  finalizers : List WorkItem := []
  locks : List String := []
deriving DecidableEq, Repr, Inhabited

namespace Resolution

def relations (resolution : Resolution) : Relations where
  hardSuccessors := (resolution.successors.filter (·.hard)).map (·.item)
  dependencies := (resolution.successors.filter (·.awaited)).map (·.item)
  finalizers := resolution.finalizers
  locks := resolution.locks

/-- The items that a resolution mentions, in the order in which it mentions them. -/
def mentioned (resolution : Resolution) : List WorkItem :=
  resolution.successors.map (·.item) ++ resolution.finalizers

/-- How many items an expansion may have to visit because of this resolution. -/
def fanOut (resolution : Resolution) : Nat :=
  resolution.successors.length + resolution.finalizers.length

end Resolution

def Catalog.record (catalog : Catalog) (resolution : Resolution) : Catalog :=
  (resolution.successors.foldl
    (fun current successor => current.update successor.item fun node =>
      { node with executed := node.executed || successor.alreadyExecuted })
    catalog).internAll resolution.finalizers

/-- A source of relations that can mention only the items of `mentionable`. -/
structure Resolver where
  answer : WorkItem → Except ResolutionFault Resolution
  mentionable : List WorkItem
  mentioned_subset : ∀ {item : WorkItem} {resolution : Resolution},
    answer item = .ok resolution → ∀ other ∈ resolution.mentioned, other ∈ mentionable

/-- How many items an expansion may have to visit because of `item`. -/
def Resolver.fanOut (resolver : Resolver) (item : WorkItem) : Nat :=
  match resolver.answer item with
  | .ok resolution => resolution.fanOut
  | .error _ => 0

end TaskPlanner
