import TaskPlanner.ItemSet

/-!
# Batches

Every request to a plan belongs to a batch, which has an ordinal. The registry keeps
the batches in ascending order of their ordinals, each with the items that were
requested in it.
-/

set_option autoImplicit false

namespace TaskPlanner

/-- The items requested under one ordinal, in order of request. -/
structure Batch where
  ordinal : Ordinal
  entries : ItemSet := {}
deriving DecidableEq, Repr

/-- All batches of a plan, by ascending ordinal. -/
structure Batches where
  batches : List Batch := []
deriving DecidableEq, Repr, Inhabited

namespace Batches

/-- Change the batch `ordinal` of an ascending list, opening it if there is none. -/
def changeIn (ordinal : Ordinal) (change : Batch → Batch) : List Batch → List Batch
  | [] => [change { ordinal }]
  | batch :: rest =>
      if ordinal < batch.ordinal then change { ordinal } :: batch :: rest
      else if ordinal = batch.ordinal then change batch :: rest
      else batch :: changeIn ordinal change rest

def find? (registry : Batches) (ordinal : Ordinal) : Option Batch :=
  registry.batches.find? (·.ordinal = ordinal)

/-- The requested items of the batch `ordinal`; none if there is no such batch. -/
def entriesOf (registry : Batches) (ordinal : Ordinal) : List WorkItem :=
  ((registry.find? ordinal).map (·.entries.items)).getD []

def ensure (registry : Batches) (ordinal : Ordinal) : Batches :=
  { batches := changeIn ordinal id registry.batches }

/-- Add an item to the batch `ordinal`, opening the batch if necessary. -/
def addEntry (registry : Batches) (ordinal : Ordinal) (item : WorkItem) : Batches :=
  { batches := changeIn ordinal
      (fun batch => { batch with entries := batch.entries.insert item }) registry.batches }

def ordinals (registry : Batches) : List Ordinal := registry.batches.map (·.ordinal)

/-- Each two successive ordinals in use, the earlier one first. -/
def successions (registry : Batches) : List (Ordinal × Ordinal) :=
  registry.ordinals.zip registry.ordinals.tail

end Batches

end TaskPlanner
