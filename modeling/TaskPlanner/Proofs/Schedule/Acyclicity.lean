import TaskPlanner.Proofs.Graph.Cycles
import TaskPlanner.Proofs.Schedule.Overtaking
import TaskPlanner.Proofs.Schedule.WellFormed

/-! An inventory that requests have filled has a schedule exactly if its items can be put in the
order that dependencies and finalizers ask for. Markers make no difference. -/

set_option autoImplicit false

namespace TaskPlanner.Inventory

variable {inventory : Inventory}

/-- What has been put in order was not cyclic. -/
theorem acyclic_relationGraph_of_schedule {schedule : Schedule}
    (scheduled : inventory.schedule = .ok schedule) : inventory.relationGraph.Acyclic := by
  obtain ⟨order, ordered, _⟩ := schedule_eq_ok scheduled
  obtain ⟨distinct, listed, respects⟩ := linearOrder_sound ordered
  have relationsRespected : inventory.relationGraph.Respects order := by
    intro earlier item later split before adjacent
    refine respects earlier item later split before ?_
    rw [constraintGraph_eq, Graph.adjacent_connectAll]
    exact .inl adjacent
  refine relationsRespected.acyclic distinct fun source target adjacent => ?_
  exact listed.mem_iff.mpr (adjacent_relationGraph.mp adjacent).2.1

theorem linearOrder_eq_linearize (acyclic : inventory.constraintGraph.Acyclic) :
    inventory.linearOrder = inventory.constraintGraph.linearize inventory.isUrgent := by
  unfold linearOrder
  dsimp only
  rw [acyclic.cycle?_eq_none]

/-- An inventory with its markers has a schedule if and only if no constraint closes a cycle. -/
theorem exists_schedule_iff
    (present : ∀ ordinal ∈ inventory.markedOrdinals, WorkItem.marker ordinal ∈ inventory.index)
    (distinct : inventory.index.items.Nodup) :
    (∃ schedule, inventory.schedule = .ok schedule) ↔ inventory.constraintGraph.Acyclic := by
  have sources : ∀ source target, inventory.constraintGraph.Adjacent source target →
      source ∈ inventory.constraintGraph.vertices := by
    intro source target adjacent
    rw [vertices_constraintGraph]
    exact source_mem_index present source target adjacent
  constructor
  · rintro ⟨schedule, scheduled⟩
    obtain ⟨order, ordered, _⟩ := schedule_eq_ok scheduled
    refine (Graph.cycle?_eq_none_iff sources).mp ?_
    unfold linearOrder at ordered
    dsimp only at ordered
    split at ordered
    · cases ordered
    next unreported => exact unreported
  · intro acyclic
    obtain ⟨order, ordered⟩ := acyclic.exists_linearize
      (by rw [vertices_constraintGraph]; exact distinct) sources inventory.isUrgent
    rw [← linearOrder_eq_linearize acyclic] at ordered
    unfold Inventory.schedule
    rw [ordered]
    exact ⟨_, rfl⟩

/-- What is not cyclic can be put in order. -/
theorem Batched.exists_schedule (batched : inventory.Batched) (apart : inventory.MarkersApart)
    (present : ∀ ordinal ∈ inventory.markedOrdinals, WorkItem.marker ordinal ∈ inventory.index)
    (distinct : inventory.index.items.Nodup) (acyclic : inventory.relationGraph.Acyclic) :
    ∃ schedule, inventory.schedule = .ok schedule :=
  (exists_schedule_iff present distinct).mpr (batched.acyclic_constraintGraph apart acyclic)

end TaskPlanner.Inventory
