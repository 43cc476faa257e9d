import Mathlib.Data.List.Induction
import Mathlib.Data.List.Nodup
import TaskPlanner.Proofs.Schedule.Constraints

/-! Every schedule that the ordering of an inventory produces is well formed: whoever runs it
may rely on the order of its nodes. Nothing is asked of the inventory for that. -/

set_option autoImplicit false

namespace TaskPlanner

/-- What every schedule keeps to: its items are distinct, an item stands behind everything it
waits for, and it waits for everything it finalizes. -/
structure Schedule.WellFormed (schedule : Schedule) : Prop where
  distinct : schedule.items.Nodup
  ordered : ∀ earlier node later, schedule.nodes = earlier ++ node :: later →
    ∀ before ∈ node.predecessors, before.1 ∈ earlier.map (·.item)
  targets : ∀ node ∈ schedule.nodes, ∀ target ∈ node.finalizes,
    ∃ kind, (target, kind) ∈ node.predecessors

namespace Schedule

variable {schedule : Schedule}

theorem wellFormed_empty : ({} : Schedule).WellFormed where
  distinct := List.nodup_nil
  ordered earlier node later split := by simp at split
  targets := by simp

theorem mem_items {node : ScheduledNode} (member : node ∈ schedule.nodes) :
    node.item ∈ schedule.items :=
  List.mem_map_of_mem member

theorem WellFormed.mem_items_of_predecessor (wellFormed : schedule.WellFormed)
    {node : ScheduledNode} (member : node ∈ schedule.nodes) {before : WorkItem × EdgeKind}
    (waits : before ∈ node.predecessors) : before.1 ∈ schedule.items := by
  obtain ⟨earlier, later, split⟩ := List.append_of_mem member
  have placed := wellFormed.ordered earlier node later split before waits
  unfold items
  rw [split, List.map_append]
  exact List.mem_append_left _ placed

/-- The item names its node. -/
theorem WellFormed.node_unique (wellFormed : schedule.WellFormed) {node other : ScheduledNode}
    (member : node ∈ schedule.nodes) (present : other ∈ schedule.nodes)
    (same : node.item = other.item) : node = other :=
  List.inj_on_of_nodup_map wellFormed.distinct member present same

/-- What holds of an item as soon as it holds of everything the item waits for holds of the whole
schedule. -/
theorem WellFormed.induction (wellFormed : schedule.WellFormed) {motive : WorkItem → Prop}
    (step : ∀ node ∈ schedule.nodes, (∀ waited ∈ node.predecessors, motive waited.1) →
      motive node.item) : ∀ item ∈ schedule.items, motive item := by
  -- The nodes in front of a node include all that it waits for, so the induction is on them.
  have front : ∀ earlier later, schedule.nodes = earlier ++ later →
      ∀ item ∈ earlier.map (·.item), motive item := by
    intro earlier
    induction earlier using List.reverseRecOn with
    | nil => simp
    | append_singleton earlier node ih =>
        intro later split item member
        rw [List.append_assoc, List.singleton_append] at split
        have before := ih (node :: later) split
        rw [List.map_append, List.mem_append] at member
        rcases member with inside | here
        · exact before item inside
        · cases List.mem_singleton.mp here
          have present : node ∈ schedule.nodes := by simp [split]
          exact step node present fun waited waits =>
            before waited.1 (wellFormed.ordered earlier node later split waited waits)
  exact front schedule.nodes [] (List.append_nil _).symm

/-- The nodes up to any point of the order include all that these nodes wait for. -/
theorem WellFormed.mem_front (wellFormed : schedule.WellFormed)
    {earlier later : List ScheduledNode} (split : schedule.nodes = earlier ++ later)
    {node : ScheduledNode} (member : node ∈ earlier) {waited : WorkItem × EdgeKind}
    (waits : waited ∈ node.predecessors) : waited.1 ∈ earlier.map (·.item) := by
  obtain ⟨front, between, rfl⟩ := List.append_of_mem member
  rw [List.append_assoc, List.cons_append] at split
  have before := wellFormed.ordered front node _ split waited waits
  rw [List.map_append]
  exact List.mem_append_left _ before

theorem mem_of_node? {item : WorkItem} {node : ScheduledNode}
    (found : schedule.node? item = some node) : node ∈ schedule.nodes ∧ node.item = item :=
  ⟨List.mem_of_find?_eq_some found, by simpa using List.find?_some found⟩

theorem WellFormed.node?_eq_some (wellFormed : schedule.WellFormed) {node : ScheduledNode}
    (member : node ∈ schedule.nodes) : schedule.node? node.item = some node := by
  cases found : schedule.node? node.item with
  | none =>
      have absent := List.find?_eq_none.mp found node member
      simp at absent
  | some other =>
      obtain ⟨present, same⟩ := mem_of_node? found
      rw [wellFormed.node_unique present member same]

end Schedule

namespace Inventory

theorem linearize_of_linearOrder {inventory : Inventory} {order : List WorkItem}
    (ordered : inventory.linearOrder = .ok order) :
    inventory.constraintGraph.linearize inventory.isUrgent = .ok order := by
  unfold linearOrder at ordered
  dsimp only at ordered
  split at ordered
  · cases ordered
  · exact ordered

theorem linearOrder_sound {inventory : Inventory} {order : List WorkItem}
    (ordered : inventory.linearOrder = .ok order) :
    order.Nodup ∧ order.Perm inventory.index.items ∧
      inventory.constraintGraph.Respects order := by
  rw [← inventory.vertices_constraintGraph]
  exact Graph.linearize_sound (linearize_of_linearOrder ordered)

theorem nodup_vertices {inventory : Inventory} {order : List WorkItem}
    (ordered : inventory.linearOrder = .ok order) :
    inventory.constraintGraph.vertices.Nodup := by
  obtain ⟨distinct, listed, _⟩ := linearOrder_sound ordered
  rw [vertices_constraintGraph]
  exact listed.nodup_iff.mp distinct

theorem mem_finalizedBy {inventory : Inventory} {item target : WorkItem} :
    target ∈ inventory.finalizedBy item ↔
      target ∈ inventory.index ∧ item ∈ (inventory.relations target).finalizers := by
  simp only [finalizedBy, List.mem_flatMap, List.mem_map, List.mem_filter, decide_eq_true_eq]
  constructor
  · rintro ⟨_, listed, _, ⟨related, rfl⟩, rfl⟩
    exact ⟨listed, related⟩
  · rintro ⟨listed, related⟩
    exact ⟨target, listed, item, ⟨related, rfl⟩, rfl⟩

theorem schedule_eq_ok {inventory : Inventory} {schedule : Schedule}
    (scheduled : inventory.schedule = .ok schedule) :
    ∃ order, inventory.linearOrder = .ok order ∧
      schedule.nodes = order.map (inventory.scheduledNode inventory.constraintGraph) := by
  unfold Inventory.schedule at scheduled
  split at scheduled
  · cases scheduled
  next order ordered =>
    cases scheduled
    exact ⟨order, ordered, rfl⟩

theorem map_item_scheduledNode (inventory : Inventory) (graph : Graph) (order : List WorkItem) :
    (order.map (inventory.scheduledNode graph)).map (·.item) = order := by
  rw [List.map_map]
  exact List.map_id order

/-- The nodes of a schedule are those of the items of the index. -/
theorem node_of_schedule {inventory : Inventory} {schedule : Schedule}
    (scheduled : inventory.schedule = .ok schedule) {node : ScheduledNode}
    (member : node ∈ schedule.nodes) :
    node.item ∈ inventory.index ∧
      node = inventory.scheduledNode inventory.constraintGraph node.item := by
  obtain ⟨order, ordered, nodes⟩ := schedule_eq_ok scheduled
  rw [nodes] at member
  obtain ⟨item, placed, rfl⟩ := List.mem_map.mp member
  exact ⟨(linearOrder_sound ordered).2.1.mem_iff.mp placed, rfl⟩

/-- A node waits for everything that the constraints put in front of it. -/
theorem exists_mem_predecessors {inventory : Inventory} {schedule : Schedule}
    (scheduled : inventory.schedule = .ok schedule) {node : ScheduledNode}
    (member : node ∈ schedule.nodes) {source : WorkItem}
    (adjacent : inventory.constraintGraph.Adjacent source node.item) :
    ∃ kind, (source, kind) ∈ node.predecessors := by
  obtain ⟨_, same⟩ := node_of_schedule scheduled member
  obtain ⟨⟨_, kind⟩, waits, rfl⟩ := List.mem_map.mp (Graph.mem_predecessors.mpr adjacent)
  rw [same]
  exact ⟨kind, waits⟩

theorem mem_nodes_of_mem_index {inventory : Inventory} {schedule : Schedule}
    (scheduled : inventory.schedule = .ok schedule) {item : WorkItem}
    (indexed : item ∈ inventory.index) :
    inventory.scheduledNode inventory.constraintGraph item ∈ schedule.nodes := by
  obtain ⟨order, ordered, nodes⟩ := schedule_eq_ok scheduled
  rw [nodes]
  exact List.mem_map_of_mem ((linearOrder_sound ordered).2.1.mem_iff.mpr indexed)

theorem wellFormed_schedule {inventory : Inventory} {schedule : Schedule}
    (scheduled : inventory.schedule = .ok schedule) : schedule.WellFormed := by
  obtain ⟨order, ordered, nodes⟩ := schedule_eq_ok scheduled
  obtain ⟨distinct, listed, respects⟩ := linearOrder_sound ordered
  refine ⟨?_, ?_, ?_⟩
  · unfold Schedule.items
    rwa [nodes, map_item_scheduledNode]
  · intro earlier node later split before waits
    rw [nodes] at split
    obtain ⟨first, rest, rfl, rfl, mapped⟩ := List.map_eq_append_iff.mp split
    obtain ⟨item, last, rfl, rfl, rfl⟩ := List.map_eq_cons_iff.mp mapped
    rw [map_item_scheduledNode]
    exact respects first item last rfl before.1
      (Graph.mem_predecessors.mp (List.mem_map_of_mem waits))
  · intro node member target finalized
    obtain ⟨itemListed, same⟩ := node_of_schedule scheduled member
    rw [same] at finalized
    obtain ⟨targetListed, related⟩ := mem_finalizedBy.mp finalized
    refine exists_mem_predecessors scheduled member ?_
    rw [constraintGraph_eq, Graph.adjacent_connectAll]
    exact .inl (adjacent_relationGraph.mpr ⟨targetListed, itemListed, .inr related⟩)

end Inventory

/-- The order of some inventory, or the schedule of a plan that was never put in order. -/
def Schedule.IsOrdered (schedule : Schedule) : Prop :=
  schedule = {} ∨ ∃ inventory : Inventory, inventory.schedule = .ok schedule

theorem Schedule.IsOrdered.wellFormed {schedule : Schedule} (ordered : schedule.IsOrdered) :
    schedule.WellFormed := by
  rcases ordered with rfl | ⟨_, scheduled⟩
  · exact wellFormed_empty
  · exact Inventory.wellFormed_schedule scheduled

end TaskPlanner
