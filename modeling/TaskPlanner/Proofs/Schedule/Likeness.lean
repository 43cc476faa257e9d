import TaskPlanner.Proofs.Graph.Urgency
import TaskPlanner.Proofs.Schedule.Acyclicity

/-! What the ordering reads of an inventory. Inventories that it reads the same of have the same
constraints, and their schedules have the same nodes. The places of items that are never on offer
next to others do not matter for the order. -/

set_option autoImplicit false

namespace TaskPlanner

/-! ## Graphs with the same edges -/

namespace Graph

variable {plain : WorkItem → Bool} {left right : Graph} {source target item : WorkItem}

/-- The graphs have the same edges and the same vertices, the plain ones in the same order. -/
structure Shuffles (plain : WorkItem → Bool) (left right : Graph) : Prop where
  edges : right.edges = left.edges
  vertices : right.vertices.Perm left.vertices
  order : right.vertices.filter plain = left.vertices.filter plain

theorem eq_of_edges (same : right.edges = left.edges) (vertices : right.vertices = left.vertices) :
    right = left := by
  cases right
  cases left
  cases same
  cases vertices
  rfl

theorem edges_connectAll_congr (same : right.edges = left.edges) (edges : List Edge) :
    (right.connectAll edges).edges = (left.connectAll edges).edges := by
  induction edges generalizing left right with
  | nil => exact same
  | cons edge rest ih => exact ih (congrArg (connectIn edge) same)

theorem adjacent_congr (same : right.edges = left.edges) :
    right.Adjacent source target ↔ left.Adjacent source target := by
  unfold Adjacent
  rw [same]

theorem reaches_congr (same : right.edges = left.edges) :
    right.Reaches source target ↔ left.Reaches source target :=
  ⟨.mono fun _ _ => (adjacent_congr same).mp, .mono fun _ _ => (adjacent_congr same).mpr⟩

theorem acyclic_congr (same : right.edges = left.edges) : right.Acyclic ↔ left.Acyclic :=
  forall_congr' fun _ => not_congr (reaches_congr same)

theorem predecessors_congr (same : right.edges = left.edges) (item : WorkItem) :
    right.predecessors item = left.predecessors item := by
  unfold predecessors
  rw [same]

theorem successors_congr (same : right.edges = left.edges) (item : WorkItem) :
    right.successors item = left.successors item := by
  unfold successors
  rw [same]

theorem isReleased_congr (same : right.edges = left.edges) (placed : List WorkItem) :
    right.isReleased placed = left.isReleased placed := by
  funext item
  unfold isReleased
  rw [predecessors_congr same]

end Graph

/-! ## Lineups -/

namespace Lineup

variable {plain : WorkItem → Bool} {graph graphToo : Graph} {left right : Lineup} {item : WorkItem}
  {isUrgent isUrgentToo : WorkItem → WorkItem → Bool}

/-- The lineups have placed the same and have the same on offer, and only plain items are ready. -/
structure Alike (plain : WorkItem → Bool) (left right : Lineup) : Prop where
  placed : right.placed = left.placed
  urgent : right.urgent = left.urgent
  ready : ∀ item, item ∈ right.ready ↔ item ∈ left.ready
  readyPlain : ∀ item ∈ left.ready, plain item = true

/-- No item but a plain one is ever on offer without being urgent, and what becomes urgent at one
time is listed in the same order. -/
structure Settles (plain : WorkItem → Bool) (graph graphToo : Graph)
    (isUrgent isUrgentToo : WorkItem → WorkItem → Bool) : Prop extends
    graph.Shuffles plain graphToo where
  agree : ∀ item ∈ graph.vertices, ∀ other ∈ graph.vertices,
    isUrgentToo item other = isUrgent item other
  waits : ∀ item ∈ graph.vertices, graph.isReleased [] item = true → plain item = true
  presses : ∀ item ∈ graph.vertices, ∀ other ∈ graph.vertices, isUrgent item other = false →
    plain other = true
  released : ∀ lineup : Lineup, lineup.Valid graph → ∀ item ∈ graph.vertices,
    item ∉ lineup.placed → graph.isReleased lineup.placed item = true →
      lineup.released graphToo isUrgentToo item = lineup.released graph isUrgent item

theorem Settles.initial (settles : Settles plain graph graphToo isUrgent isUrgentToo) :
    Alike plain (.initial graph) (.initial graphToo) where
  placed := rfl
  urgent := rfl
  ready item := by
    simp only [Lineup.initial, List.mem_filter, settles.vertices.mem_iff,
      Graph.isReleased_congr settles.edges]
  readyPlain item ready := by
    obtain ⟨vertex, free⟩ := List.mem_filter.mp ready
    exact settles.waits item vertex free

theorem Alike.next?_eq (alike : Alike plain left right) (same : graph.Shuffles plain graphToo) :
    right.next? graphToo = left.next? graph := by
  have first : ∀ vertices : List WorkItem, vertices.find? (· ∈ left.ready) =
      (vertices.filter plain).find? (· ∈ left.ready) := by
    intro vertices
    rw [List.find?_filter]
    congr 1
    funext item
    refine decide_eq_decide.mpr
      ⟨fun ready => ⟨alike.readyPlain item ready, decide_eq_true ready⟩, ?_⟩
    exact fun ready => of_decide_eq_true ready.2
  have ready : (fun item => decide (item ∈ right.ready)) = fun item => decide (item ∈ left.ready) :=
    funext fun item => decide_eq_decide.mpr (alike.ready item)
  unfold next?
  rw [alike.urgent, ready, first graphToo.vertices, first graph.vertices, same.order]

theorem Alike.place (alike : Alike plain left right)
    (settles : Settles plain graph graphToo isUrgent isUrgentToo) (valid : left.Valid graph)
    (offered : item ∈ left.ready ∨ item ∈ left.urgent) :
    Alike plain (left.place graph isUrgent item) (right.place graphToo isUrgentToo item) := by
  obtain ⟨vertex, unplaced, free⟩ := (valid.offered item).mp offered
  refine ⟨congrArg (· ++ [item]) alike.placed, ?_, fun other => ?_, fun other ready => ?_⟩
  · have released := settles.released left valid item vertex unplaced free
    rw [urgent_place, urgent_place, alike.urgent, ← released]
    unfold Lineup.released
    rw [alike.placed]
  · simp only [Lineup.place, List.mem_append, List.mem_filter, alike.ready, alike.placed,
      settles.vertices.mem_iff, Graph.successors_congr settles.edges,
      Graph.isReleased_congr settles.edges]
    refine or_congr_right (and_congr_right fun released => ?_)
    rw [settles.agree item vertex other released.1]
  · rcases List.mem_append.mp ready with old | new
    · exact alike.readyPlain other (List.mem_of_mem_filter old)
    · obtain ⟨otherFree, unpressed⟩ := List.mem_filter.mp new
      exact settles.presses item vertex other (List.mem_of_mem_filter otherFree)
        (by simpa using unpressed)

theorem Settles.run (settles : Settles plain graph graphToo isUrgent isUrgentToo)
    (alike : Alike plain left right) (valid : left.Valid graph) (steps : Nat) :
    Alike plain (left.run graph isUrgent steps) (right.run graphToo isUrgentToo steps) := by
  induction steps generalizing left right with
  | zero => exact alike
  | succ steps ih =>
      unfold Lineup.run
      rw [alike.next?_eq settles.toShuffles]
      split
      next => exact alike
      next item next =>
        have offered := mem_of_next? next
        exact ih (alike.place settles valid offered) (valid.place isUrgent offered)

theorem Settles.linearize_eq (settles : Settles plain graph graphToo isUrgent isUrgentToo) :
    graphToo.linearize isUrgentToo = graph.linearize isUrgent := by
  have placed := (settles.run settles.initial (valid_initial graph) graph.vertices.length).placed
  unfold Graph.linearize
  dsimp only
  rw [settles.vertices.length_eq, placed]

end Lineup

/-! ## Inventories -/

namespace GroupTable

theorem find?_eq_of_hasBy {left right : GroupTable} {item : WorkItem}
    (forward : ∀ group, left.find? item = some group → right.HasBy item group)
    (backward : ∀ group, right.find? item = some group → left.HasBy item group) :
    right.find? item = left.find? item := by
  cases found : left.find? item with
  | none =>
      cases other : right.find? item with
      | none => rfl
      | some group =>
          obtain ⟨_, lookup, _⟩ := backward group other
          cases found.symm.trans lookup
  | some group =>
      obtain ⟨early, lookup, order⟩ := forward group found
      obtain ⟨first, lookupToo, orderToo⟩ := backward early lookup
      cases found.symm.trans lookupToo
      rw [lookup, Fin.le_antisymm order orderToo]

end GroupTable

namespace Inventory

variable {plain : WorkItem → Bool} {left right : Inventory} {item : WorkItem}

/-- The inventories list the same items, the plain ones in the same order, and the ordering reads
the same of both. The other items are idle markers. -/
structure Resembles (plain : WorkItem → Bool) (left right : Inventory) : Prop where
  index : right.index.items.Perm left.index.items
  order : right.index.items.filter plain = left.index.items.filter plain
  idle : ∀ item ∈ left.index, plain item = false →
    item.isMarker = true ∧ left.relations item = {}
  group : ∀ item ∈ left.index, (right.node item).group = (left.node item).group
  executed : ∀ item ∈ left.index, (right.node item).executed = (left.node item).executed
  locks : ∀ item ∈ left.index, (right.relations item).locks = (left.relations item).locks
  dependencies : ∀ item ∈ left.index,
    (right.relations item).dependencies.filter (· ∈ left.index) =
      (left.relations item).dependencies.filter (· ∈ left.index)
  finalizers : ∀ item ∈ left.index,
    (right.relations item).finalizers.filter (· ∈ left.index) =
      (left.relations item).finalizers.filter (· ∈ left.index)
  entries : ∀ item ∈ left.index, (item ∈ right.entries ↔ item ∈ left.entries)
  closing : ∀ item ∈ left.index, (item ∈ right.finalizers ↔ item ∈ left.finalizers)
  ordinals : right.batches.ordinals = left.batches.ordinals
  requested : ∀ ordinal, (right.batches.entriesOf ordinal).filter (· ∈ left.index) =
    (left.batches.entriesOf ordinal).filter (· ∈ left.index)

theorem Resembles.mem_index (alike : left.Resembles plain right) :
    item ∈ right.index ↔ item ∈ left.index :=
  alike.index.mem_iff

theorem Resembles.filter_mem_index (alike : left.Resembles plain right) (items : List WorkItem) :
    items.filter (· ∈ right.index) = items.filter (· ∈ left.index) :=
  List.filter_congr fun _ _ => decide_eq_decide.mpr alike.mem_index

/-- Whether an item of the index is among the finalizers of another one. -/
theorem Resembles.mem_finalizers (alike : left.Resembles plain right) {target : WorkItem}
    (present : target ∈ left.index) (indexed : item ∈ left.index) :
    item ∈ (right.relations target).finalizers ↔ item ∈ (left.relations target).finalizers := by
  have same := congrArg (item ∈ ·) (alike.finalizers target present)
  simpa [indexed] using same

theorem filter_filter_of_plain {plain keep : WorkItem → Bool} {items : List WorkItem}
    (plainly : ∀ item ∈ items, plain item = false → keep item = false) :
    (items.filter plain).filter keep = items.filter keep := by
  rw [List.filter_filter]
  refine List.filter_congr fun item member => ?_
  cases ordinary : plain item with
  | false => rw [plainly item member ordinary, Bool.and_false]
  | true => rw [Bool.and_true]

/-- Items of the index that idle markers are not among stand in the same order. -/
theorem Resembles.filter_items (alike : left.Resembles plain right) {keep keepToo : WorkItem → Bool}
    (same : ∀ item ∈ left.index, keepToo item = keep item)
    (plainly : ∀ item ∈ left.index, plain item = false → keep item = false) :
    right.index.items.filter keepToo = left.index.items.filter keep := by
  rw [List.filter_congr fun item member => same item (alike.index.mem_iff.mp member),
    ← filter_filter_of_plain fun item member => plainly item (alike.index.mem_iff.mp member),
    alike.order, filter_filter_of_plain plainly]

theorem Resembles.flatMap_items {α : Type} (alike : left.Resembles plain right)
    {find findToo : WorkItem → List α} (same : ∀ item ∈ left.index, findToo item = find item)
    (idle : ∀ item ∈ left.index, plain item = false → find item = []) :
    right.index.items.flatMap findToo = left.index.items.flatMap find := by
  have plainly : ∀ items : List WorkItem, (∀ item ∈ items, plain item = false → find item = []) →
      items.flatMap find = (items.filter plain).flatMap find := by
    intro items empty
    induction items with
    | nil => rfl
    | cons item rest ih =>
        have later := ih fun other member => empty other (List.mem_cons_of_mem _ member)
        rw [List.flatMap_cons, later]
        cases ordinary : plain item with
        | false =>
            rw [empty item List.mem_cons_self ordinary,
              List.filter_cons_of_neg (by simp [ordinary]), List.nil_append]
        | true => rw [List.filter_cons_of_pos ordinary, List.flatMap_cons]
  have members : ∀ item ∈ right.index.items, item ∈ left.index :=
    fun item member => alike.index.mem_iff.mp member
  rw [List.flatMap_congr fun item member => same item (members item member),
    plainly _ fun item member => idle item (members item member), alike.order,
    ← plainly _ idle]

/-! ## Relations and effective groups -/

theorem Resembles.relationEdgesOf_eq (alike : left.Resembles plain right)
    (indexed : item ∈ left.index) : right.relationEdgesOf item = left.relationEdgesOf item := by
  unfold relationEdgesOf
  rw [alike.filter_mem_index, alike.filter_mem_index, alike.dependencies item indexed,
    alike.finalizers item indexed]

theorem Resembles.relationGraph (alike : left.Resembles plain right) :
    left.relationGraph.Shuffles plain right.relationGraph := by
  constructor
  · have edges : right.index.items.flatMap right.relationEdgesOf =
        left.index.items.flatMap left.relationEdgesOf := by
      refine alike.flatMap_items (fun item indexed => alike.relationEdgesOf_eq indexed) ?_
      intro item indexed special
      unfold relationEdgesOf
      rw [(alike.idle item indexed special).2]
      rfl
    rw [relationGraph_eq, relationGraph_eq, edges]
    have bare : (⟨right.index.items, []⟩ : Graph).edges = (⟨left.index.items, []⟩ : Graph).edges :=
      rfl
    exact Graph.edges_connectAll_congr bare _
  · rw [vertices_relationGraph, vertices_relationGraph]
    exact alike.index
  · rw [vertices_relationGraph, vertices_relationGraph]
    exact alike.order

/-- Whatever needs an item in the one inventory needs it in the other. -/
theorem hasBy_of_shuffles (same : left.relationGraph.Shuffles plain right.relationGraph)
    (groups : ∀ item ∈ left.index, (right.node item).group = (left.node item).group)
    (indexed : item ∈ left.index) {group : Ordinal}
    (found : left.effectiveGroups.find? item = some group) :
    right.effectiveGroups.HasBy item group := by
  obtain ⟨target, waits, owned⟩ := Graph.exists_own_of_effectiveGroups found
  have present : target ∈ left.index := by
    rcases waits with rfl | reaches
    · exact indexed
    · have vertex := left.isSpanned_relationGraph.mem_of_reaches reaches
      rwa [vertices_relationGraph] at vertex
  have vertex : item ∈ right.relationGraph.vertices := by
    rw [same.vertices.mem_iff, vertices_relationGraph]
    exact indexed
  exact Graph.effectiveGroups_hasBy_of_mem_waitingGroups right.isSimple_relationGraph
    right.isSpanned_relationGraph vertex
    ⟨target, waits.imp_right (Graph.reaches_congr same.edges).mpr,
      (groups target present).trans owned⟩

theorem Resembles.find?_effectiveGroups (alike : left.Resembles plain right)
    (indexed : item ∈ left.index) :
    right.effectiveGroups.find? item = left.effectiveGroups.find? item := by
  have same := alike.relationGraph
  have back : right.relationGraph.Shuffles plain left.relationGraph :=
    ⟨same.edges.symm, same.vertices.symm, same.order.symm⟩
  refine GroupTable.find?_eq_of_hasBy
    (fun group found => hasBy_of_shuffles same alike.group indexed found)
    fun group found => hasBy_of_shuffles back ?_ (alike.mem_index.mpr indexed) found
  exact fun other member => (alike.group other (alike.mem_index.mp member)).symm

/-! ## Constraints -/

theorem Resembles.isHeldBack_eq (alike : left.Resembles plain right) (ordinal : Ordinal)
    (indexed : item ∈ left.index) :
    right.isHeldBack right.effectiveGroups ordinal item =
      left.isHeldBack left.effectiveGroups ordinal item := by
  unfold isHeldBack
  rw [alike.group item indexed, alike.find?_effectiveGroups indexed]

theorem Resembles.markerEdges_eq (alike : left.Resembles plain right) (before : Option Ordinal)
    (previous ordinal : Ordinal) :
    right.markerEdges right.effectiveGroups before previous ordinal =
      left.markerEdges left.effectiveGroups before previous ordinal := by
  have held : right.index.items.filter (right.isHeldBack right.effectiveGroups ordinal) =
      left.index.items.filter (left.isHeldBack left.effectiveGroups ordinal) := by
    refine alike.filter_items (fun item indexed => alike.isHeldBack_eq ordinal indexed) ?_
    intro item indexed special
    unfold isHeldBack
    rw [(alike.idle item indexed special).1]
    rfl
  unfold markerEdges
  rw [alike.filter_mem_index, alike.requested, held]

theorem Resembles.batchEdges_eq (alike : left.Resembles plain right) :
    right.batchEdges = left.batchEdges := by
  have all : ∀ (before : Option Ordinal) (successions : List (Ordinal × Ordinal)),
      right.markerEdgesAll right.effectiveGroups before successions =
        left.markerEdgesAll left.effectiveGroups before successions := by
    intro before successions
    induction successions generalizing before with
    | nil => rfl
    | cons succession rest ih => rw [markerEdgesAll, markerEdgesAll, alike.markerEdges_eq, ih]
  unfold batchEdges Batches.successions
  rw [alike.ordinals, all]

theorem Resembles.constraintGraph (alike : left.Resembles plain right) :
    left.constraintGraph.Shuffles plain right.constraintGraph := by
  constructor
  · rw [constraintGraph_eq, constraintGraph_eq, alike.batchEdges_eq]
    exact Graph.edges_connectAll_congr alike.relationGraph.edges _
  · rw [vertices_constraintGraph, vertices_constraintGraph]
    exact alike.index
  · rw [vertices_constraintGraph, vertices_constraintGraph]
    exact alike.order

theorem Resembles.markedOrdinals_eq (alike : left.Resembles plain right) :
    right.markedOrdinals = left.markedOrdinals :=
  congrArg List.tail alike.ordinals

theorem Resembles.isUrgent_eq (alike : left.Resembles plain right) {other : WorkItem}
    (indexed : item ∈ left.index) (present : other ∈ left.index) :
    right.isUrgent item other = left.isUrgent item other := by
  unfold isUrgent
  rw [alike.markedOrdinals_eq, decide_eq_decide.mpr (alike.mem_finalizers indexed present)]

/-! ## Schedules -/

theorem Resembles.finalizedBy_eq (alike : left.Resembles plain right)
    (indexed : item ∈ left.index) : right.finalizedBy item = left.finalizedBy item := by
  refine alike.flatMap_items (fun target present => ?_) fun target present special => ?_
  · have same : ∀ finalizers : List WorkItem, finalizers.filter (· = item) =
        (finalizers.filter (· ∈ left.index)).filter (· = item) := by
      intro finalizers
      rw [List.filter_filter]
      refine List.filter_congr fun other _ => ?_
      by_cases here : other = item
      · simp [here, indexed]
      · simp [here]
    rw [same, alike.finalizers target present, ← same]
  · rw [(alike.idle target present special).2]
    rfl

/-- The node of an item is the same in both schedules. -/
theorem Resembles.scheduledNode_eq (alike : left.Resembles plain right)
    (indexed : item ∈ left.index) :
    right.scheduledNode right.constraintGraph item =
      left.scheduledNode left.constraintGraph item := by
  have edges := alike.constraintGraph.edges
  have needed : right.constraintGraph.isDependedUpon item =
      left.constraintGraph.isDependedUpon item := by
    unfold Graph.isDependedUpon
    rw [edges]
  unfold scheduledNode
  rw [decide_eq_decide.mpr (alike.entries item indexed),
    decide_eq_decide.mpr (alike.closing item indexed), alike.group item indexed,
    alike.executed item indexed, alike.locks item indexed, alike.finalizedBy_eq indexed, needed,
    Graph.predecessors_congr edges]

theorem Resembles.map_scheduledNode (alike : left.Resembles plain right) {order : List WorkItem}
    (listed : ∀ item ∈ order, item ∈ left.index) :
    order.map (right.scheduledNode right.constraintGraph) =
      order.map (left.scheduledNode left.constraintGraph) :=
  List.map_congr_left fun item member => alike.scheduledNode_eq (listed item member)

theorem schedule_eq_map (inventory : Inventory) :
    inventory.schedule = inventory.linearOrder.map fun order =>
      .ofNodes (order.map (inventory.scheduledNode inventory.constraintGraph))
        inventory.filtered.items := by
  unfold schedule
  cases inventory.linearOrder <;> rfl

theorem map_filtered_schedule (inventory : Inventory) :
    (inventory.schedule.map fun schedule =>
      { schedule with filtered := inventory.filtered.items }) = inventory.schedule := by
  rw [schedule_eq_map]
  cases inventory.linearOrder <;> rfl

theorem filtered_of_schedule {inventory : Inventory} {schedule : Schedule}
    (scheduled : inventory.schedule = .ok schedule) :
    schedule.filtered = inventory.filtered.items := by
  have same := inventory.map_filtered_schedule
  rw [scheduled] at same
  exact congrArg Schedule.filtered (Except.ok.inj same).symm

/-- Inventories that have the same linear order have the same schedule, but for what their filters
rejected. -/
theorem Resembles.schedule_eq (alike : left.Resembles plain right)
    (ordered : right.linearOrder = left.linearOrder) :
    right.schedule = left.schedule.map fun schedule =>
      { schedule with filtered := right.filtered.items } := by
  rw [schedule_eq_map, schedule_eq_map, ordered]
  cases found : left.linearOrder with
  | error report => rfl
  | ok order =>
      have listed : ∀ item ∈ order, item ∈ left.index := fun item member =>
        (linearOrder_sound found).2.1.mem_iff.mp member
      show Except.ok (Schedule.ofNodes _ _) = Except.ok _
      rw [alike.map_scheduledNode listed]
      rfl

/-- Whatever the places of the idle markers are, the schedules have the same nodes. -/
theorem Resembles.nodes_perm (alike : left.Resembles plain right) {schedule scheduleToo : Schedule}
    (scheduled : left.schedule = .ok schedule) (scheduledToo : right.schedule = .ok scheduleToo) :
    scheduleToo.nodes.Perm schedule.nodes := by
  obtain ⟨order, ordered, nodes⟩ := schedule_eq_ok scheduled
  obtain ⟨orderToo, orderedToo, nodesToo⟩ := schedule_eq_ok scheduledToo
  have listed := (linearOrder_sound ordered).2.1
  have listedToo := (linearOrder_sound orderedToo).2.1
  rw [nodes, nodesToo, alike.map_scheduledNode fun item member =>
    alike.mem_index.mp (listedToo.mem_iff.mp member)]
  exact (listedToo.trans (alike.index.trans listed.symm)).map _

/-- Whether there is a schedule is a matter of the constraints alone. -/
theorem Resembles.exists_schedule_iff (alike : left.Resembles plain right)
    (present : ∀ ordinal ∈ left.markedOrdinals, WorkItem.marker ordinal ∈ left.index)
    (distinct : left.index.items.Nodup) :
    (∃ schedule, right.schedule = .ok schedule) ↔ ∃ schedule, left.schedule = .ok schedule := by
  have presentToo : ∀ ordinal ∈ right.markedOrdinals, WorkItem.marker ordinal ∈ right.index := by
    intro ordinal marked
    rw [alike.markedOrdinals_eq] at marked
    exact alike.mem_index.mpr (present ordinal marked)
  rw [Inventory.exists_schedule_iff present distinct,
    Inventory.exists_schedule_iff presentToo (alike.index.nodup_iff.mpr distinct),
    Graph.acyclic_congr alike.constraintGraph.edges]

/-- Inventories with the same index have the same linear order, or the same cycle. -/
theorem Resembles.linearOrder_eq (alike : left.Resembles plain right)
    (same : right.index = left.index) : right.linearOrder = left.linearOrder := by
  have graphs : right.constraintGraph = left.constraintGraph := by
    have vertices : right.constraintGraph.vertices = left.constraintGraph.vertices := by
      rw [vertices_constraintGraph, vertices_constraintGraph, same]
    exact Graph.eq_of_edges alike.constraintGraph.edges vertices
  have settles : Lineup.Settles (fun _ => true) left.constraintGraph right.constraintGraph
      left.isUrgent right.isUrgent := by
    have agree : ∀ item ∈ left.constraintGraph.vertices, ∀ other ∈ left.constraintGraph.vertices,
        right.isUrgent item other = left.isUrgent item other := by
      intro item indexed other present
      rw [vertices_constraintGraph] at indexed present
      exact alike.isUrgent_eq indexed present
    rw [graphs]
    refine ⟨⟨rfl, .refl _, rfl⟩, agree, fun _ _ _ => rfl, fun _ _ _ _ _ => rfl, ?_⟩
    intro lineup _ item vertex _ _
    exact List.filter_congr fun other member =>
      agree item vertex other (List.mem_of_mem_filter member)
  unfold linearOrder
  dsimp only
  rw [settles.linearize_eq, graphs]

end Inventory

end TaskPlanner
