import TaskPlanner.Proofs.Plan.Batching
import TaskPlanner.Proofs.Schedule.Acyclicity

/-! The schedule of an inventory is a linear extension of what its items ask for. Markers and
batches add constraints, and edges that coincide keep the strictest kind, so nothing that an item
asks for is lost on the way into the constraint graph. -/

set_option autoImplicit false

namespace TaskPlanner

theorem EdgeKind.strength_strictest (left right : EdgeKind) :
    (left.strictest right).strength = max left.strength right.strength := by
  cases left <;> cases right <;> rfl

/-! ## Kinds of edges -/

namespace Graph

variable {graph : Graph} {source target : WorkItem} {kind : EdgeKind}

/-- `target` waits for `source` at least as strictly as `kind` asks. -/
def Binds (graph : Graph) (source target : WorkItem) (kind : EdgeKind) : Prop :=
  ∃ edge ∈ graph.edges, edge.source = source ∧ edge.target = target ∧
    kind.strength ≤ edge.kind.strength

theorem exists_stricter_of_mem_connectIn {edge old : Edge} {edges : List Edge}
    (member : old ∈ edges) :
    ∃ next ∈ connectIn edge edges, next.source = old.source ∧ next.target = old.target ∧
      old.kind.strength ≤ next.kind.strength := by
  induction edges with
  | nil => cases member
  | cons head rest ih =>
      unfold connectIn
      split
      next =>
        rcases List.mem_cons.mp member with rfl | inside
        · refine ⟨_, List.mem_cons_self, rfl, rfl, ?_⟩
          rw [EdgeKind.strength_strictest]
          exact Nat.le_max_left _ _
        · exact ⟨old, List.mem_cons_of_mem _ inside, rfl, rfl, Nat.le_refl _⟩
      next =>
        rcases List.mem_cons.mp member with rfl | inside
        · exact ⟨old, List.mem_cons_self, rfl, rfl, Nat.le_refl _⟩
        · obtain ⟨next, present, joined⟩ := ih inside
          exact ⟨next, List.mem_cons_of_mem _ present, joined⟩

theorem exists_stricter_connectIn (edge : Edge) (edges : List Edge) :
    ∃ next ∈ connectIn edge edges, next.source = edge.source ∧ next.target = edge.target ∧
      edge.kind.strength ≤ next.kind.strength := by
  induction edges with
  | nil => exact ⟨edge, List.mem_singleton_self edge, rfl, rfl, Nat.le_refl _⟩
  | cons head rest ih =>
      unfold connectIn
      split
      next same =>
        refine ⟨_, List.mem_cons_self, same.1, same.2, ?_⟩
        rw [EdgeKind.strength_strictest]
        exact Nat.le_max_right _ _
      next =>
        obtain ⟨next, present, joined⟩ := ih
        exact ⟨next, List.mem_cons_of_mem _ present, joined⟩

theorem Binds.connect (binds : graph.Binds source target kind) (before after : WorkItem)
    (other : EdgeKind) : (graph.connect before after other).Binds source target kind := by
  obtain ⟨edge, member, rfl, rfl, strict⟩ := binds
  obtain ⟨next, present, sources, targets, stricter⟩ := exists_stricter_of_mem_connectIn member
  exact ⟨next, present, sources, targets, Nat.le_trans strict stricter⟩

theorem Binds.connectAll (binds : graph.Binds source target kind) (edges : List Edge) :
    (graph.connectAll edges).Binds source target kind := by
  induction edges generalizing graph with
  | nil => exact binds
  | cons edge rest ih => exact ih (binds.connect edge.source edge.target edge.kind)

theorem binds_connectAll {edges : List Edge} {edge : Edge} (member : edge ∈ edges) :
    (graph.connectAll edges).Binds edge.source edge.target edge.kind := by
  induction edges generalizing graph with
  | nil => cases member
  | cons head rest ih =>
      rcases List.mem_cons.mp member with rfl | inside
      · have joined : (graph.connect edge.source edge.target edge.kind).Binds
            edge.source edge.target edge.kind := exists_stricter_connectIn edge graph.edges
        exact joined.connectAll rest
      · exact ih inside

theorem Binds.exists_predecessor (binds : graph.Binds source target kind) :
    ∃ reason, (source, reason) ∈ graph.predecessors target ∧ kind.strength ≤ reason.strength := by
  obtain ⟨edge, member, rfl, rfl, strict⟩ := binds
  exact ⟨edge.kind, List.mem_map.mpr ⟨edge, by simp [member], rfl⟩, strict⟩

end Graph

namespace Inventory

variable {inventory : Inventory} {item source : WorkItem}

theorem binds_constraintGraph {edge : Edge} (listed : item ∈ inventory.index)
    (member : edge ∈ inventory.relationEdgesOf item) :
    inventory.constraintGraph.Binds edge.source edge.target edge.kind := by
  rw [constraintGraph_eq, relationGraph_eq]
  exact (Graph.binds_connectAll (List.mem_flatMap.mpr ⟨item, listed, member⟩)).connectAll _

theorem dependency_mem_predecessors (listed : item ∈ inventory.index)
    (present : source ∈ inventory.index)
    (related : source ∈ (inventory.relations item).dependencies) :
    (source, .dependency) ∈ inventory.constraintGraph.predecessors item := by
  have asked : (⟨source, item, .dependency⟩ : Edge) ∈ inventory.relationEdgesOf item := by
    simp [relationEdgesOf, related, present]
  obtain ⟨reason, waits, strict⟩ := (binds_constraintGraph listed asked).exists_predecessor
  cases reason with
  | dependency => exact waits
  | finalizes => simp [EdgeKind.strength] at strict
  | ordinal => simp [EdgeKind.strength] at strict

theorem finalized_mem_predecessors (listed : item ∈ inventory.index)
    (present : source ∈ inventory.index)
    (related : item ∈ (inventory.relations source).finalizers) :
    (source, .dependency) ∈ inventory.constraintGraph.predecessors item ∨
      (source, .finalizes) ∈ inventory.constraintGraph.predecessors item := by
  have asked : (⟨source, item, .finalizes⟩ : Edge) ∈ inventory.relationEdgesOf source := by
    simp [relationEdgesOf, related, listed]
  obtain ⟨reason, waits, strict⟩ := (binds_constraintGraph present asked).exists_predecessor
  cases reason with
  | dependency => exact .inl waits
  | finalizes => exact .inr waits
  | ordinal => simp [EdgeKind.strength] at strict

end Inventory

/-! ## Schedules -/

/-- The schedule puts the items of an inventory in an order that keeps to their relations. -/
structure Schedule.Extends (schedule : Schedule) (inventory : Inventory) : Prop where
  distinct : schedule.items.Nodup
  exact : ∀ item, item ∈ schedule.items ↔ item ∈ inventory.index
  ordered : ∀ earlier node later, schedule.nodes = earlier ++ node :: later →
    ∀ before ∈ node.predecessors, before.1 ∈ earlier.map (·.item)
  dependencies : ∀ node ∈ schedule.nodes, ∀ dependency ∈ inventory.index,
    dependency ∈ (inventory.relations node.item).dependencies →
      (dependency, .dependency) ∈ node.predecessors
  finalized : ∀ node ∈ schedule.nodes, ∀ target ∈ inventory.index,
    node.item ∈ (inventory.relations target).finalizers →
      target ∈ node.finalizes ∧ ((target, .dependency) ∈ node.predecessors ∨
        (target, .finalizes) ∈ node.predecessors)

namespace Inventory

variable {inventory : Inventory}

theorem extends_schedule {schedule : Schedule} (scheduled : inventory.schedule = .ok schedule) :
    schedule.Extends inventory := by
  have wellFormed := wellFormed_schedule scheduled
  obtain ⟨order, ordered, nodes⟩ := schedule_eq_ok scheduled
  obtain ⟨_, listed, _⟩ := linearOrder_sound ordered
  constructor
  · exact wellFormed.distinct
  · intro item
    unfold Schedule.items
    rw [nodes, map_item_scheduledNode]
    exact listed.mem_iff
  · exact wellFormed.ordered
  · intro node member dependency present related
    obtain ⟨indexed, same⟩ := node_of_schedule scheduled member
    rw [same]
    exact dependency_mem_predecessors indexed present related
  · intro node member target present related
    obtain ⟨indexed, same⟩ := node_of_schedule scheduled member
    rw [same]
    constructor
    · exact mem_finalizedBy.mpr ⟨present, related⟩
    · exact finalized_mem_predecessors indexed present related

/-- Whenever an inventory can be put in order, the schedule extends the inventory with its markers,
which are the only items that ordering adds. The linearization itself never gives up: once no cycle
was found, everything is placed. -/
theorem schedule_linear_extension (distinct : inventory.index.items.Nodup) :
    (∀ schedule, inventory.withMarkers.schedule = .ok schedule →
      schedule.Extends inventory.withMarkers ∧
        ∀ item, item ∈ schedule.items ↔
          item ∈ inventory.index ∨ ∃ ordinal ∈ inventory.markedOrdinals, item = .marker ordinal) ∧
    (inventory.withMarkers.constraintGraph.cycle? = none →
      ∃ order, inventory.withMarkers.constraintGraph.linearize inventory.withMarkers.isUrgent =
        .ok order) := by
  have marks := inventory.marks_withMarkers
  constructor
  · intro schedule scheduled
    have extension := extends_schedule scheduled
    constructor
    · exact extension
    · intro item
      rw [extension.exact, marks.index]
  · intro unreported
    have sources : ∀ source target, inventory.withMarkers.constraintGraph.Adjacent source target →
        source ∈ inventory.withMarkers.constraintGraph.vertices := by
      intro source target adjacent
      rw [vertices_constraintGraph]
      exact source_mem_index inventory.marker_mem_withMarkers source target adjacent
    have acyclic := (Graph.cycle?_eq_none_iff sources).mp unreported
    refine acyclic.exists_linearize ?_ sources _
    rw [vertices_constraintGraph]
    exact marks.distinct distinct

/-- A first batch that asks for `compile`, which `report` finalizes, and a second one that asks for
`test`, which depends on `compile`. -/
def twoBatches : Inventory where
  catalog := {
    entries := [
      (.task "compile", { relations := { finalizers := [.task "report"] }, group := some .first }),
      (.task "report", {}),
      (.task "test",
        { relations := { dependencies := [.task "compile"] }, group := some Ordinal.first.next })] }
  index := { items := [.task "compile", .task "report", .task "test"] }
  finalizers := { items := [.task "report"] }
  batches := { batches := [⟨.first, { items := [.task "compile"] }⟩,
    ⟨Ordinal.first.next, { items := [.task "test"] }⟩] }

theorem schedule_linear_extension_twoBatches :
    twoBatches.index.items.Nodup ∧
      (∃ schedule, twoBatches.withMarkers.schedule = .ok schedule ∧
        schedule.Extends twoBatches.withMarkers ∧ .marker Ordinal.first.next ∈ schedule.items) ∧
      ∃ order, twoBatches.withMarkers.constraintGraph.linearize twoBatches.withMarkers.isUrgent =
        .ok order := by
  have distinct : twoBatches.index.items.Nodup := by decide
  obtain ⟨extends', linearized⟩ := schedule_linear_extension distinct
  obtain ⟨schedule, scheduled⟩ : ∃ schedule, twoBatches.withMarkers.schedule = .ok schedule :=
    ⟨_, rfl⟩
  obtain ⟨extension, items⟩ := extends' schedule scheduled
  have marked : Ordinal.first.next ∈ twoBatches.markedOrdinals := by decide
  exact ⟨distinct, ⟨schedule, scheduled, extension, (items _).mpr (.inr ⟨_, marked, rfl⟩)⟩,
    linearized (by decide)⟩

end Inventory

end TaskPlanner
