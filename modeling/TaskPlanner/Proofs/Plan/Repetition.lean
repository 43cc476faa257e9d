import TaskPlanner.Proofs.Plan.Editing
import TaskPlanner.Proofs.Plan.Foresight

/-! Putting a plan in order twice. The ordering leaves its markers in the plan, where the next
ordering finds them and changes nothing, so that it comes to the same schedule. -/

set_option autoImplicit false

namespace TaskPlanner

/-! ## Changes that change nothing -/

namespace Catalog

variable {catalog : Catalog} {item : WorkItem} {change : Node → Node}

theorem update_eq_self (listed : item ∈ catalog.items)
    (same : change (catalog.node item) = catalog.node item) :
    catalog.update item change = catalog := by
  obtain ⟨entries⟩ := catalog
  apply congrArg Catalog.mk
  induction entries with
  | nil => cases listed
  | cons entry rest ih =>
      obtain ⟨present, node⟩ := entry
      by_cases here : present = item
      · have unchanged : change node = node := by
          simpa [Catalog.node, nodeIn, here] using same
        simp [updateIn, here, unchanged]
      · have listed : item ∈ (Catalog.mk rest).items :=
          (List.mem_cons.mp listed).resolve_left (Ne.symm here)
        have same : change ((Catalog.mk rest).node item) = (Catalog.mk rest).node item := by
          simpa [Catalog.node, nodeIn, here] using same
        simp [updateIn, here, ih listed same]

end Catalog

/-! ## Markers that are in place -/

namespace Inventory

variable {inventory : Inventory} {ordinal other : Ordinal}

/-- The marker of a batch is where the ordering puts it. -/
structure HasMarker (inventory : Inventory) (ordinal : Ordinal) : Prop where
  mentioned : .marker ordinal ∈ inventory.catalog.items
  marked : (inventory.node (.marker ordinal)).mark ordinal = inventory.node (.marker ordinal)
  indexed : .marker ordinal ∈ inventory.index

theorem HasMarker.addMarker_eq (present : inventory.HasMarker ordinal) :
    inventory.addMarker ordinal = inventory := by
  have catalog : inventory.catalog.update (.marker ordinal) (Node.mark · ordinal) =
      inventory.catalog := Catalog.update_eq_self present.mentioned present.marked
  have index : inventory.index.insert (.marker ordinal) = inventory.index :=
    if_pos present.indexed
  calc inventory.addMarker ordinal
      = { inventory with
          catalog := inventory.catalog.update (.marker ordinal) (Node.mark · ordinal)
          index := inventory.index.insert (.marker ordinal) } := rfl
    _ = inventory := by rw [catalog, index]

theorem hasMarker_addMarker (inventory : Inventory) (ordinal : Ordinal) :
    (inventory.addMarker ordinal).HasMarker ordinal where
  mentioned := Catalog.mem_items_update.mpr (.inr rfl)
  marked := by rw [node_addMarker, if_pos rfl, Node.mark_mark]
  indexed := ItemSet.mem_insert.mpr (.inr rfl)

theorem HasMarker.addMarker (present : inventory.HasMarker ordinal) (other : Ordinal) :
    (inventory.addMarker other).HasMarker ordinal where
  mentioned := Catalog.mem_items_update.mpr (.inl present.mentioned)
  marked := by
    rw [node_addMarker]
    split
    next same =>
      cases same
      rw [Node.mark_mark]
    next => exact present.marked
  indexed := ItemSet.mem_insert.mpr (.inl present.indexed)

/-- Markers that are in place stay there while others are added. -/
theorem hasMarker_foldl {ordinals : List Ordinal}
    (known : inventory.HasMarker ordinal ∨ ordinal ∈ ordinals) :
    (ordinals.foldl Inventory.addMarker inventory).HasMarker ordinal := by
  induction ordinals generalizing inventory with
  | nil => simpa using known
  | cons first rest ih =>
      apply ih
      cases known with
      | inl present => exact .inl (present.addMarker first)
      | inr member =>
          cases member with
          | head => exact .inl (inventory.hasMarker_addMarker ordinal)
          | tail _ later => exact .inr later

@[simp] theorem markedOrdinals_withMarkers (inventory : Inventory) :
    inventory.withMarkers.markedOrdinals = inventory.markedOrdinals :=
  congrArg (·.ordinals.tail) inventory.marks_withMarkers.batches

theorem withMarkers_withMarkers (inventory : Inventory) :
    inventory.withMarkers.withMarkers = inventory.withMarkers := by
  have present : ∀ ordinal ∈ inventory.markedOrdinals, inventory.withMarkers.HasMarker ordinal :=
    fun _ marked => hasMarker_foldl (.inr marked)
  rw [withMarkers, markedOrdinals_withMarkers]
  generalize inventory.markedOrdinals = ordinals at present
  induction ordinals with
  | nil => rfl
  | cons first rest ih =>
      rw [List.foldl_cons, (present first List.mem_cons_self).addMarker_eq]
      exact ih fun ordinal member => present ordinal (List.mem_cons_of_mem _ member)

end Inventory

/-! ## Plans that were put in order -/

namespace Plan

variable {plan : Plan} {resolver : Resolver} {submission : Submission}

/-- A plan that still has to be put in order takes requests. -/
def IsOpen (plan : Plan) : Prop := plan.needsOrdering = true → plan.isFinalized = false

theorem needsOrdering_edited (finalized : plan.isFinalized = true)
    (settled : plan.needsOrdering = false) (edit : Edit) :
    (plan.edited edit).needsOrdering = false := by
  cases edit with
  | accept | proceed | mention | onComplete => exact settled
  | take resolver submission =>
      show (plan.take resolver submission).plan.needsOrdering = false
      rwa [take_of_isFinalized finalized]
  | seed seeds =>
      show (plan.seed seeds).plan.needsOrdering = false
      rwa [seed, if_pos finalized]
  | determine =>
      show plan.determine.plan.needsOrdering = false
      simp [determine, settled]
  | retainFirst count =>
      show (plan.retainFirst count).plan.needsOrdering = false
      rwa [retainFirst, if_pos finalized]

theorem IsOpen.edited (isOpen : plan.IsOpen) (edit : Edit) : (plan.edited edit).IsOpen := by
  intro pending
  rw [isFinalized_edited]
  cases finalized : plan.isFinalized with
  | false => rfl
  | true =>
      have settled : plan.needsOrdering = false := by
        by_contra unsettled
        simp [isOpen (by simpa using unsettled)] at finalized
      simp [needsOrdering_edited finalized settled] at pending

theorem IsOpen.finalize (isOpen : plan.IsOpen) : plan.finalize.plan.IsOpen := by
  have determined := isOpen.edited .determine
  have settles : ∀ schedule, plan.determine.result = .ok schedule →
      plan.determine.plan.needsOrdering = false := by
    intro schedule scheduled
    cases pending : plan.needsOrdering <;> simp [determine, pending] at scheduled ⊢
    cases ordered : plan.toInventory.withMarkers.schedule <;> simp [ordered] at scheduled ⊢
  unfold Plan.finalize
  dsimp only
  split
  · exact determined
  next schedule scheduled =>
    intro pending
    rw [settles schedule scheduled] at pending
    cases pending

theorem Reachable.isOpen (reachable : plan.Reachable) : plan.IsOpen := by
  induction reachable with
  | new => exact fun _ => rfl
  | accept accepts _ ih => exact ih.edited (.accept accepts)
  | proceed continueOnFailure _ ih => exact ih.edited (.proceed continueOnFailure)
  | edit _ _ _ ih => exact ih
  | mention items _ ih => exact ih.edited (.mention items)
  | onComplete handler _ ih => exact ih.edited (.onComplete handler)
  | submit resolver tasks ordinal? _ ih => exact ih.edited (.take resolver (.tasks tasks ordinal?))
  | addEntries resolver items ordinal? _ ih =>
      exact ih.edited (.take resolver (.items items ordinal?))
  | seed seeds _ ih => exact ih.edited (.seed seeds)
  | determine _ ih => exact ih.edited .determine
  | finalize _ ih => exact ih.finalize
  | retainFirst count _ ih => exact ih.edited (.retainFirst count)
  | close _ _ _ => exact fun _ => rfl

theorem expand_nil (resolver : Resolver) (plan : Plan) :
    plan.expand resolver [] = ⟨.ok (), plan⟩ := by
  unfold expand
  cases Walk.capacity resolver [] <;> rfl

/-- A request for nothing opens a batch for nothing. -/
theorem take_of_requested_eq_nil (unfinalized : plan.isFinalized = false)
    (nothing : submission.requested = []) :
    plan.take resolver submission =
      ⟨.ok (), plan.openBatch (plan.ordinalFor submission)⟩ := by
  rw [take_eq unfinalized]
  cases submission with
  | tasks names ordinal? =>
      obtain rfl : names = [] := List.map_eq_nil_iff.mp nothing
      exact expand_nil resolver _
  | items entries ordinal? =>
      obtain rfl : entries = [] := nothing
      exact expand_nil resolver _

/-- A plan that was put in order and has found out nothing since then comes to the same schedule
once more, for instance after a request for nothing. -/
theorem determine_idempotent {schedule : Schedule} (reachable : plan.Reachable)
    (pending : plan.needsOrdering = true) (ordered : plan.determine.result = .ok schedule) :
    (∀ again : Plan, again.toInventory = plan.determine.plan.toInventory →
      again.needsOrdering = true → again.determine.result = .ok schedule ∧
        again.determine.plan.toInventory = again.toInventory) ∧
      ∀ (resolver : Resolver) (submission : Submission), submission.requested = [] →
        ∃ again, plan.determine.plan.take resolver submission = ⟨.ok (), again⟩ ∧
          again.needsOrdering = true ∧ again.determine.result = .ok schedule ∧
            again.determine.plan.toInventory = plan.determine.plan.toInventory := by
  have marked := toInventory_determine_of_needsOrdering pending
  rw [result_determine pending] at ordered
  have repeats : ∀ again : Plan, again.toInventory = plan.determine.plan.toInventory →
      again.needsOrdering = true → again.determine.result = .ok schedule ∧
        again.determine.plan.toInventory = again.toInventory := by
    intro again same forced
    rw [result_determine forced, toInventory_determine_of_needsOrdering forced, same, marked,
      Inventory.withMarkers_withMarkers]
    exact ⟨ordered, rfl⟩
  refine ⟨repeats, fun resolver submission nothing => ?_⟩
  have unfinalized : plan.determine.plan.isFinalized = false :=
    (isFinalized_edited plan .determine).trans (reachable.isOpen pending)
  refine ⟨_, take_of_requested_eq_nil unfinalized nothing, rfl, ?_⟩
  exact repeats (plan.determine.plan.openBatch _) rfl rfl

/-- The example build, with its two batches. -/
def twoBatchPlan : Plan := (takeAll exampleResolver exampleBatches examplePlan).plan

/-- The first ordering puts the marker of the second batch into the index, and the second ordering
finds it there. -/
theorem determine_idempotent_twoBatchPlan :
    twoBatchPlan.Reachable ∧ twoBatchPlan.needsOrdering = true ∧
      twoBatchPlan.determine.plan.index.items ≠ twoBatchPlan.index.items ∧
      ∃ schedule again, twoBatchPlan.determine.result = .ok schedule ∧
        twoBatchPlan.determine.plan.take exampleResolver (.tasks [] none) = ⟨.ok (), again⟩ ∧
        again.needsOrdering = true ∧ again.determine.result = .ok schedule ∧
        again.determine.plan.toInventory = twoBatchPlan.determine.plan.toInventory := by
  have reachable : twoBatchPlan.Reachable :=
    .submit exampleResolver ["test"] none
      (.submit exampleResolver ["compile"] none (.accept _ (.new "build")))
  have order : twoBatchPlan.determine.result.map (·.order) =
      .ok ["compile", "cleanup", "test"] := rfl
  cases ordered : twoBatchPlan.determine.result with
  | error => simp [ordered, Except.map] at order
  | ok schedule =>
      obtain ⟨again, repeated⟩ :=
        (determine_idempotent reachable rfl ordered).2 exampleResolver (.tasks [] none) rfl
      exact ⟨reachable, rfl, by decide, schedule, again, rfl, repeated⟩

end Plan

end TaskPlanner
