import TaskPlanner.Proofs.Plan.Repetition
import TaskPlanner.Proofs.Roster.Lookups

/-! What is done to a plan comes to calls of a register: the catalog of the plan is that of the
register, and its roster lists the index. So the register answers all questions about the index. -/

set_option autoImplicit false

namespace TaskPlanner

/-- What a call makes of the catalog. -/
def Catalog.perform (catalog : Catalog) : Register.Call → Catalog
  | .update item change => catalog.update item change
  | .add item => catalog.intern item
  | .keepFirst _ => catalog
  | .clear => catalog

/-- Some calls make this catalog of an empty one, and this set of the listed items. -/
def IsRegistered (catalog : Catalog) (set : ItemSet) : Prop :=
  ∃ calls, (Register.ofCalls calls).catalog = catalog ∧ ItemSet.ofCalls calls = set

namespace IsRegistered

variable {catalog : Catalog} {set : ItemSet} {item : WorkItem}

theorem empty : IsRegistered {} {} := ⟨[], rfl, rfl⟩

theorem perform (registered : IsRegistered catalog set) (call : Register.Call) :
    IsRegistered (catalog.perform call) (set.perform call) := by
  obtain ⟨calls, rfl, rfl⟩ := registered
  refine ⟨calls ++ [call], ?_, ?_⟩
  · rw [Register.ofCalls, List.foldl_concat]
    cases call <;> rfl
  · rw [ItemSet.ofCalls, List.foldl_concat]
    rfl

theorem update (registered : IsRegistered catalog set) (item : WorkItem) (change : Node → Node) :
    IsRegistered (catalog.update item change) set :=
  registered.perform (.update item change)

theorem updateAll (registered : IsRegistered catalog set) (items : List WorkItem)
    (change : Node → Node) : IsRegistered (catalog.updateAll items change) set := by
  induction items generalizing catalog with
  | nil => exact registered
  | cons item rest ih => exact ih (registered.update item change)

theorem record (registered : IsRegistered catalog set) (resolution : Resolution) :
    IsRegistered (catalog.record resolution) set := by
  refine IsRegistered.updateAll ?_ resolution.finalizers id
  generalize resolution.successors = successors
  induction successors generalizing catalog with
  | nil => exact registered
  | cons successor rest ih => exact ih (registered.update successor.item _)

/-- An item whose node is changed first enters the index without a further mention. -/
theorem list (registered : IsRegistered catalog set) (item : WorkItem) (change : Node → Node) :
    IsRegistered (catalog.update item change) (set.insert item) := by
  have listed := (registered.update item change).perform (.add item)
  have mentioned : item ∈ (catalog.update item change).items :=
    Catalog.mem_items_update.mpr (.inr rfl)
  rwa [show (catalog.update item change).perform (.add item) = catalog.update item change from
    Catalog.update_eq_self mentioned rfl] at listed

end IsRegistered

/-! ## Discovery -/

namespace Walk

variable {resolver : Resolver} {walk next : Walk}

theorem isRegistered_descend (registered : IsRegistered walk.plan.catalog walk.plan.index)
    (visit : Visit) (resolution : Resolution) :
    IsRegistered (walk.descend visit resolution).plan.catalog walk.plan.index :=
  (((registered.update visit.item _).record resolution).update visit.item _).updateAll _ _

theorem Moves.isRegistered (moves : Moves resolver walk next)
    (registered : IsRegistered walk.plan.catalog walk.plan.index) :
    IsRegistered next.plan.catalog next.plan.index := by
  cases moves with
  | drop => exact registered
  | setAside => exact registered.update _ _
  | leave => exact registered.list _ _
  | descend => exact isRegistered_descend registered _ _

theorem Reaches.isRegistered {last : Walk} (reaches : Reaches resolver walk last)
    (registered : IsRegistered walk.plan.catalog walk.plan.index) :
    IsRegistered last.plan.catalog last.plan.index := by
  induction reaches with
  | refl => exact registered
  | tail _ moves ih => exact moves.isRegistered ih

theorem Stops.isRegistered {attempt : Attempt Unit} (stops : Stops resolver walk attempt)
    (registered : IsRegistered walk.plan.catalog walk.plan.index) :
    IsRegistered attempt.plan.catalog attempt.plan.index := by
  cases stops with
  | done => exact registered
  | unresolved => exact registered.update _ _
  | cycle => exact isRegistered_descend registered _ _

end Walk

/-! ## Plans -/

namespace Plan

variable {plan : Plan}

theorem isKept_isRegistered : IsKept fun plan => IsRegistered plan.catalog plan.index where
  mention _ items registered := registered.updateAll items id
  openBatch _ _ := id
  request _ _ item registered := registered.update item _
  expand resolver plan queue registered := by
    obtain ⟨last, reaches, stops⟩ := plan.exists_last_expand resolver queue
    exact stops.isRegistered (reaches.isRegistered registered)
  plant _ item _ registered := registered.list item _
  precompute _ := id

theorem isRegistered_determine (registered : IsRegistered plan.catalog plan.index) :
    IsRegistered plan.determine.plan.catalog plan.determine.plan.index :=
  determine_induction (fun inventory => IsRegistered inventory.catalog inventory.index)
    (fun _ ordinal registered => registered.list (.marker ordinal) _) registered

theorem isRegistered_retainFirst (registered : IsRegistered plan.catalog plan.index)
    (count : Nat) :
    IsRegistered (plan.retainFirst count).plan.catalog (plan.retainFirst count).plan.index := by
  unfold retainFirst
  split
  · exact registered
  · dsimp only
    split
    · exact registered
    · exact (registered.perform (.keepFirst count)).updateAll _ Node.reset

theorem Reachable.isRegistered (reachable : plan.Reachable) :
    IsRegistered plan.catalog plan.index := by
  induction reachable with
  | new => exact .empty
  | accept _ _ ih => exact ih
  | proceed _ _ ih => exact ih
  | edit item change _ ih => exact ih.update item change
  | mention items _ ih => exact ih.updateAll items id
  | onComplete _ _ ih => exact ih
  | submit resolver tasks ordinal? _ ih =>
      exact isKept_isRegistered.take ih resolver (.tasks tasks ordinal?)
  | addEntries resolver items ordinal? _ ih =>
      exact isKept_isRegistered.take ih resolver (.items items ordinal?)
  | seed seeds _ ih => exact isKept_isRegistered.seed ih seeds
  | determine _ ih => exact isRegistered_determine ih
  | @finalize plan _ ih =>
      rw [(finalize_cases plan).2.2]
      exact isRegistered_determine ih
  | retainFirst count _ ih => exact isRegistered_retainFirst ih count
  | close executed _ ih =>
      exact ((ih.perform .clear).updateAll executed _).updateAll _ Node.reset

/-- A roster of the index finds what the plan finds. -/
theorem find_of_represents {register : Register} (represents : register.Represents plan.index)
    (name : String) :
    register.roster.find name = (plan.find name).map register.catalog.numberFor := by
  unfold Roster.find find
  rw [represents.tasks]
  cases plan.index.task? name <;> rfl

/-- Whatever was done to a plan, calls make a register that has the catalog of the plan and whose
roster answers as the index does. -/
theorem Reachable.exists_register (reachable : plan.Reachable) :
    ∃ calls, (Register.ofCalls calls).catalog = plan.catalog ∧
      (Register.ofCalls calls).roster.numbers = plan.index.items.map plan.catalog.numberFor ∧
      (∀ item, (Register.ofCalls calls).roster.contains (plan.catalog.numberFor item) =
        decide (item ∈ plan.index)) ∧
      (∀ name, (Register.ofCalls calls).roster.find name =
        (plan.find name).map plan.catalog.numberFor) ∧
      (Register.ofCalls calls).roster.taskNames = plan.index.taskNames ∧
      (Register.ofCalls calls).roster.publicSize = plan.index.publicSize := by
  obtain ⟨calls, catalog, listed⟩ := reachable.isRegistered
  have represents := Register.represents_ofCalls calls
  rw [listed] at represents
  refine ⟨calls, catalog, ?_⟩
  rw [← catalog]
  exact ⟨represents.numbers_eq, represents.contains_numberFor, find_of_represents represents,
    represents.taskNames_eq, represents.publicSize_eq⟩

end Plan

end TaskPlanner
