import TaskPlanner.Proofs.Schedule.LinearExtension

/-! An item that no earlier batch needs waits for the marker of its batch, and so for what every
earlier batch requests. Only markers wait for markers, apart from what these hold back. -/

set_option autoImplicit false

namespace TaskPlanner

/-! ## Registered batches -/

theorem Batches.IsAscending.mem_entriesOf {registry : Batches} (ascending : registry.IsAscending)
    {batch : Batch} (member : batch ∈ registry.batches) {entry : WorkItem}
    (requested : entry ∈ batch.entries) : entry ∈ registry.entriesOf batch.ordinal := by
  have distinct : (registry.batches.map (·.ordinal)).Nodup :=
    ascending.imp fun below same => absurd below (by rw [same]; exact Fin.lt_irrefl _)
  have found : registry.find? batch.ordinal = some batch := by
    unfold find?
    cases search : registry.batches.find? (·.ordinal = batch.ordinal) with
    | none =>
        have missed := List.find?_eq_none.mp search batch member
        simp at missed
    | some other =>
        have same : other.ordinal = batch.ordinal := by simpa using List.find?_some search
        rw [List.inj_on_of_nodup_map distinct (List.mem_of_find?_eq_some search) member same]
  unfold entriesOf
  rw [found]
  exact requested

/-- Every batch that comes behind another one has a marker. -/
theorem Batches.IsAscending.mem_tail {registry : Batches} (ascending : registry.IsAscending)
    {earlier later : Ordinal} (member : earlier ∈ registry.ordinals)
    (present : later ∈ registry.ordinals) (order : earlier < later) :
    later ∈ registry.ordinals.tail := by
  unfold Batches.IsAscending at ascending
  cases split : registry.ordinals with
  | nil =>
      rw [split] at present
      cases present
  | cons first rest =>
      rw [split] at ascending member present
      rcases List.mem_cons.mp present with rfl | behind
      · rcases List.mem_cons.mp member with rfl | after
        · exact absurd order (Fin.lt_irrefl _)
        · have below := (List.pairwise_cons.mp ascending).1 earlier after
          exact absurd (Fin.lt_trans order below) (Fin.lt_irrefl _)
      · exact behind

/-! ## Kinds of constraints -/

namespace Graph

theorem mem_connectIn_ordinal {edge next : Edge} {edges : List Edge} (kind : next.kind = .ordinal)
    (member : edge ∈ connectIn next edges) : edge.kind = .ordinal ∨ edge ∈ edges := by
  induction edges with
  | nil =>
      cases List.mem_singleton.mp member
      exact .inl kind
  | cons head rest ih =>
      unfold connectIn at member
      split at member
      · have kept : head.kind.strictest next.kind = head.kind := by
          rw [kind]
          cases head.kind <;> rfl
        rw [kept] at member
        exact .inr member
      · rcases List.mem_cons.mp member with rfl | inside
        · exact .inr List.mem_cons_self
        · exact (ih inside).imp_right (List.mem_cons_of_mem _)

/-- Constraints between batches are the weakest: they make none of the others stricter. -/
theorem mem_connectAll_ordinal {graph : Graph} {edge : Edge} {edges : List Edge}
    (kinds : ∀ next ∈ edges, next.kind = .ordinal) (member : edge ∈ (graph.connectAll edges).edges) :
    edge.kind = .ordinal ∨ edge ∈ graph.edges := by
  induction edges generalizing graph with
  | nil => exact .inr member
  | cons head rest ih =>
      rcases ih (fun next listed => kinds next (List.mem_cons_of_mem _ listed)) member with
        weak | before
      · exact .inl weak
      · exact mem_connectIn_ordinal (kinds head List.mem_cons_self) before

end Graph

namespace Inventory

variable {inventory : Inventory} {ordinal : Ordinal} {item source target entry : WorkItem}
  {kind : EdgeKind}

theorem kind_of_mem_markerEdgesAll {effective : GroupTable}
    {successions : List (Ordinal × Ordinal)} {before : Option Ordinal} {edge : Edge}
    (member : edge ∈ inventory.markerEdgesAll effective before successions) :
    edge.kind = .ordinal ∧ (edge.source.isMarker = true ∨ edge.target.isMarker = true) := by
  induction successions generalizing before with
  | nil => cases member
  | cons succession rest ih =>
      rcases List.mem_append.mp member with here | later
      · rcases mem_markerEdges.mp here with ⟨_, _, _, rfl⟩ | ⟨_, _, rfl⟩ | ⟨_, _, _, rfl⟩
        · exact ⟨rfl, .inr rfl⟩
        · exact ⟨rfl, .inr rfl⟩
        · exact ⟨rfl, .inl rfl⟩
      · exact ih later

theorem adjacent_of_mem_predecessors
    (waits : (source, kind) ∈ inventory.constraintGraph.predecessors target) :
    kind = .ordinal ∨ inventory.relationGraph.Adjacent source target := by
  obtain ⟨edge, listed, same⟩ := List.mem_map.mp waits
  obtain ⟨member, targets⟩ := List.mem_filter.mp listed
  cases same
  rw [constraintGraph_eq] at member
  have kinds : ∀ next ∈ inventory.batchEdges, next.kind = .ordinal :=
    fun next listed => (kind_of_mem_markerEdgesAll listed).1
  exact (Graph.mem_connectAll_ordinal kinds member).imp_right fun related =>
    ⟨edge, related, rfl, of_decide_eq_true targets⟩

theorem MarkersApart.kind_eq_ordinal (apart : inventory.MarkersApart)
    (waits : (source, kind) ∈ inventory.constraintGraph.predecessors target)
    (marker : source.isMarker = true ∨ target.isMarker = true) : kind = .ordinal := by
  rcases adjacent_of_mem_predecessors waits with weak | related
  · exact weak
  · obtain ⟨sourceUnmarked, targetUnmarked⟩ := apart.relations source target related
    rw [sourceUnmarked, targetUnmarked] at marker
    cases marker <;> contradiction

theorem MarkersApart.mem_predecessors (apart : inventory.MarkersApart) {edge : Edge}
    (member : edge ∈ inventory.batchEdges) :
    (edge.source, .ordinal) ∈ inventory.constraintGraph.predecessors edge.target := by
  have adjacent := adjacent_of_mem_batchEdges member
  obtain ⟨⟨source, kind⟩, waits, same⟩ := List.mem_map.mp (Graph.mem_predecessors.mpr adjacent)
  have weak := apart.kind_eq_ordinal waits
    (by rw [show source = edge.source from same]; exact (kind_of_mem_markerEdgesAll member).2)
  rw [← same, ← weak]
  exact waits

/-! ## Items that no earlier batch needs -/

/-- The item belongs to the batch, and nothing that waits for it belongs to an earlier one: its own
group is its effective group. -/
structure IsDue (inventory : Inventory) (ordinal : Ordinal) (item : WorkItem) : Prop where
  own : (inventory.node item).group = some ordinal
  least : ∀ target group, inventory.relationGraph.Reaches item target →
    (inventory.node target).group = some group → ordinal ≤ group

/-- Something that waits for the item is in a batch in front of `ordinal`. -/
def IsNeededBefore (inventory : Inventory) (ordinal : Ordinal) (item : WorkItem) : Prop :=
  ∃ target group, inventory.relationGraph.Reaches item target ∧
    (inventory.node target).group = some group ∧ group < ordinal

theorem isDue_iff : inventory.IsDue ordinal item ↔
    (inventory.node item).group = some ordinal ∧ ¬inventory.IsNeededBefore ordinal item := by
  constructor
  · rintro ⟨own, least⟩
    refine ⟨own, ?_⟩
    rintro ⟨target, group, reaches, present, before⟩
    exact absurd before (Fin.not_lt.mpr (least target group reaches present))
  · rintro ⟨own, unneeded⟩
    refine ⟨own, fun target group reaches present => Fin.not_lt.mp fun before => ?_⟩
    exact unneeded ⟨target, group, reaches, present, before⟩

theorem IsDue.find?_effectiveGroups (due : inventory.IsDue ordinal item)
    (indexed : item ∈ inventory.index) :
    inventory.effectiveGroups.find? item = some ordinal := by
  have vertex : item ∈ inventory.relationGraph.vertices := by
    rw [vertices_relationGraph]
    exact indexed
  have own : inventory.effectiveGroups.HasBy item ordinal :=
    Graph.effectiveGroups_hasBy_own inventory.isSimple_relationGraph
      inventory.sources_relationGraph vertex due.own
  obtain ⟨found, lookup, early⟩ := own
  obtain ⟨target, waits, owned⟩ := Graph.exists_own_of_effectiveGroups lookup
  have late : ordinal ≤ found := by
    rcases waits with rfl | reaches
    · rw [due.own] at owned
      cases owned
      exact Fin.le_refl _
    · exact due.least target found reaches owned
  rw [Fin.le_antisymm late early]
  exact lookup

/-- No batch in front of `ordinal` needs anything, if the end of no edge is in one. -/
theorem not_isNeededBefore_of_edges
    (edges : ∀ edge ∈ inventory.relationGraph.edges,
      ((inventory.node edge.target).group.all fun group => decide (ordinal ≤ group)) = true) :
    ¬inventory.IsNeededBefore ordinal item := by
  rintro ⟨target, group, reaches, grouped, before⟩
  obtain ⟨edge, listed, rfl⟩ : ∃ edge ∈ inventory.relationGraph.edges, edge.target = target := by
    cases reaches with
    | edge adjacent => exact adjacent.imp fun edge joins => ⟨joins.1, joins.2.2⟩
    | trans _ adjacent => exact adjacent.imp fun edge joins => ⟨joins.1, joins.2.2⟩
  have bound := edges edge listed
  rw [grouped] at bound
  exact absurd before (Fin.not_lt.mpr (of_decide_eq_true bound))

/-- An item is due if its batch is no later than that of the end of any edge. -/
theorem IsDue.of_edges (own : (inventory.node item).group = some ordinal)
    (edges : ∀ edge ∈ inventory.relationGraph.edges,
      ((inventory.node edge.target).group.all fun group => decide (ordinal ≤ group)) = true) :
    inventory.IsDue ordinal item :=
  isDue_iff.mpr ⟨own, not_isNeededBefore_of_edges edges⟩

/-- What the markers of an inventory rely on. -/
structure IsOrderly (inventory : Inventory) : Prop where
  ascending : inventory.batches.IsAscending
  apart : inventory.MarkersApart
  grouped : ∀ item group, (inventory.node item).group = some group →
    group ∈ inventory.batches.ordinals
  marked : ∀ ordinal ∈ inventory.markedOrdinals, WorkItem.marker ordinal ∈ inventory.index

theorem IsOrderly.isHeldBack (orderly : inventory.IsOrderly) (due : inventory.IsDue ordinal item)
    (indexed : item ∈ inventory.index) (unmarked : item.isMarker = false) {batch : Batch}
    (member : batch ∈ inventory.batches.batches) (order : batch.ordinal < ordinal) :
    ordinal ∈ inventory.markedOrdinals ∧
      inventory.isHeldBack inventory.effectiveGroups ordinal item = true := by
  have behind : ordinal ∈ inventory.markedOrdinals :=
    orderly.ascending.mem_tail (List.mem_map_of_mem member) (orderly.grouped item ordinal due.own)
      order
  simp only [Inventory.isHeldBack, unmarked, due.own, due.find?_effectiveGroups indexed,
    Bool.not_false, decide_true, Bool.and_self, and_true]
  exact behind

/-- The markers lead from whatever an earlier batch requests to an item that no earlier batch
needs. -/
theorem IsOrderly.markerChain {waits : WorkItem → WorkItem → Prop} (orderly : inventory.IsOrderly)
    (edges : ∀ edge ∈ inventory.batchEdges, waits edge.source edge.target)
    (due : inventory.IsDue ordinal item) (indexed : item ∈ inventory.index)
    (unmarked : item.isMarker = false) {batch : Batch} (member : batch ∈ inventory.batches.batches)
    (order : batch.ordinal < ordinal) (requested : entry ∈ batch.entries)
    (present : entry ∈ inventory.index) :
    MarkerChain waits entry ordinal ∧ waits (.marker ordinal) item := by
  obtain ⟨behind, heldBack⟩ := orderly.isHeldBack due indexed unmarked member order
  constructor
  · exact markerChain_of_entry orderly.ascending edges
      (orderly.ascending.mem_entriesOf member requested) present (List.mem_map_of_mem member)
      (List.mem_of_mem_tail behind) order
  · obtain ⟨previous, succession⟩ := exists_succession behind
    obtain ⟨last, included⟩ := inventory.exists_markerEdges_subset inventory.effectiveGroups none
      succession
    exact edges ⟨.marker ordinal, item, .ordinal⟩
      (included (mem_markerEdges.mpr (.inr (.inr ⟨item, indexed, heldBack, rfl⟩))))

/-- Whatever waits for an item that no earlier batch needs waits for all that earlier batches
request. -/
theorem IsOrderly.reaches {held : WorkItem} (orderly : inventory.IsOrderly)
    (due : inventory.IsDue ordinal held)
    (waits : held = item ∨ inventory.relationGraph.Reaches held item)
    (indexed : item ∈ inventory.index) (unmarked : item.isMarker = false) {batch : Batch}
    (listed : batch ∈ inventory.batches.batches) (order : batch.ordinal < ordinal)
    (requested : entry ∈ batch.entries) (present : entry ∈ inventory.index) :
    inventory.constraintGraph.Reaches entry item := by
  have ready : ∀ held, inventory.IsDue ordinal held → held ∈ inventory.index →
      held.isMarker = false → inventory.constraintGraph.Reaches entry held := by
    intro held due indexed unmarked
    obtain ⟨chain, holds⟩ := orderly.markerChain (fun _ => adjacent_of_mem_batchEdges) due indexed
      unmarked listed order requested present
    exact .trans chain.reaches holds
  rcases waits with rfl | reaches
  · exact ready _ due indexed unmarked
  · obtain ⟨next, adjacent⟩ := reaches.exists_adjacent
    have ahead := ready held due (adjacent_relationGraph.mp adjacent).1
      (orderly.apart.relations held next adjacent).1
    exact ahead.append (reaches.mono fun _ _ => adjacent_constraintGraph)

/-! ## Schedules -/

theorem target_of_mem_markerEdgesAll {effective : GroupTable}
    {successions : List (Ordinal × Ordinal)} {before : Option Ordinal} {edge : Edge}
    (member : edge ∈ inventory.markerEdgesAll effective before successions) :
    edge.target ∈ inventory.index ∨
      ∃ previous ordinal, (previous, ordinal) ∈ successions ∧ edge.target = .marker ordinal := by
  induction successions generalizing before with
  | nil => cases member
  | cons succession rest ih =>
      rcases List.mem_append.mp member with here | later
      · rcases mem_markerEdges.mp here with ⟨_, _, _, rfl⟩ | ⟨_, _, rfl⟩ | ⟨_, indexed, _, rfl⟩
        · exact .inr ⟨_, _, List.mem_cons_self, rfl⟩
        · exact .inr ⟨_, _, List.mem_cons_self, rfl⟩
        · exact .inl indexed
      · refine (ih later).imp_right ?_
        rintro ⟨previous, ordinal, listed, same⟩
        exact ⟨previous, ordinal, List.mem_cons_of_mem _ listed, same⟩

end Inventory

namespace Schedule

variable {schedule : Schedule} {before item : WorkItem} {ordinal : Ordinal}
  {earlier later : List ScheduledNode}

/-- `item` waits for `before` because of their batches. -/
def AwaitsBatch (schedule : Schedule) (before item : WorkItem) : Prop :=
  ∃ node ∈ schedule.nodes, node.item = item ∧ (before, EdgeKind.ordinal) ∈ node.predecessors

theorem AwaitsBatch.mem_predecessors (awaits : schedule.AwaitsBatch before item)
    (wellFormed : schedule.WellFormed) {node : ScheduledNode} (member : node ∈ schedule.nodes)
    (same : node.item = item) : (before, .ordinal) ∈ node.predecessors := by
  obtain ⟨other, present, rfl, waits⟩ := awaits
  cases wellFormed.node_unique member present same
  exact waits

theorem AwaitsBatch.mem_front (awaits : schedule.AwaitsBatch before item)
    (wellFormed : schedule.WellFormed) (split : schedule.nodes = earlier ++ later)
    (placed : item ∈ earlier.map (·.item)) : before ∈ earlier.map (·.item) := by
  obtain ⟨node, front, same⟩ := List.mem_map.mp placed
  have member : node ∈ schedule.nodes := by
    rw [split]
    exact List.mem_append_left _ front
  exact wellFormed.mem_front split front (awaits.mem_predecessors wellFormed member same)

end Schedule

/-- Wherever a marker stands, everything that leads to it stands in front. -/
theorem MarkerChain.mem_front {schedule : Schedule} {item : WorkItem} {ordinal : Ordinal}
    (chain : MarkerChain schedule.AwaitsBatch item ordinal) (wellFormed : schedule.WellFormed)
    {earlier later : List ScheduledNode} (split : schedule.nodes = earlier ++ later)
    (placed : .marker ordinal ∈ earlier.map (·.item)) : item ∈ earlier.map (·.item) := by
  induction chain with
  | entry direct => exact direct.mem_front wellFormed split placed
  | marker _ direct ih => exact ih (direct.mem_front wellFormed split placed)

namespace Inventory

variable {inventory : Inventory} {schedule : Schedule} {ordinal : Ordinal}

theorem IsOrderly.target_mem_index (orderly : inventory.IsOrderly) {edge : Edge}
    (member : edge ∈ inventory.batchEdges) : edge.target ∈ inventory.index := by
  rcases target_of_mem_markerEdgesAll member with listed | ⟨_, ordinal, succession, same⟩
  · exact listed
  · rw [same]
    exact orderly.marked ordinal (mem_markedOrdinals_of_mem_successions succession)

theorem IsOrderly.awaitsBatch (orderly : inventory.IsOrderly)
    (scheduled : inventory.schedule = .ok schedule) {edge : Edge}
    (member : edge ∈ inventory.batchEdges) : schedule.AwaitsBatch edge.source edge.target :=
  ⟨_, mem_nodes_of_mem_index scheduled (orderly.target_mem_index member), rfl,
    orderly.apart.mem_predecessors member⟩

/-- The schedule puts a node that no earlier batch needs behind the marker of its batch, and the
marker behind what earlier batches request. -/
theorem IsOrderly.markerChain_schedule (orderly : inventory.IsOrderly)
    (scheduled : inventory.schedule = .ok schedule) {node : ScheduledNode}
    (member : node ∈ schedule.nodes) (unmarked : node.isMarker = false)
    (due : inventory.IsDue ordinal node.item) {batch : Batch}
    (listed : batch ∈ inventory.batches.batches) (order : batch.ordinal < ordinal)
    {entry : WorkItem} (requested : entry ∈ batch.entries) (indexed : entry ∈ inventory.index) :
    MarkerChain schedule.AwaitsBatch entry ordinal ∧
      (.marker ordinal, .ordinal) ∈ node.predecessors := by
  have present := (node_of_schedule scheduled member).1
  obtain ⟨chain, awaits⟩ := orderly.markerChain (fun _ => orderly.awaitsBatch scheduled) due
    present unmarked listed order requested indexed
  exact ⟨chain, awaits.mem_predecessors (wellFormed_schedule scheduled) member rfl⟩

end Inventory

end TaskPlanner
