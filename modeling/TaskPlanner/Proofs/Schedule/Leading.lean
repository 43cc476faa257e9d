import TaskPlanner.Proofs.Schedule.BatchOrder

/-! What leads to an item of a schedule. A way to it keeps to dependencies and finalizers, or passes
a marker; the last marker on it holds back an item that no earlier batch needs. -/

set_option autoImplicit false

namespace TaskPlanner

/-! ## Predecessors -/

namespace Schedule

variable {schedule : Schedule} {before item : WorkItem} {earlier later : List ScheduledNode}

/-- `item` waits for `before`, for whatever reason. -/
def Awaits (schedule : Schedule) (before item : WorkItem) : Prop :=
  ∃ node ∈ schedule.nodes, node.item = item ∧ ∃ kind, (before, kind) ∈ node.predecessors

/-- The predecessors of the nodes lead from `before` to `item`. -/
def Leads (schedule : Schedule) : WorkItem → WorkItem → Prop :=
  Relation.TransGen schedule.Awaits

theorem Awaits.mem_front (awaits : schedule.Awaits before item) (wellFormed : schedule.WellFormed)
    (split : schedule.nodes = earlier ++ later) (placed : item ∈ earlier.map (·.item)) :
    before ∈ earlier.map (·.item) := by
  obtain ⟨node, member, rfl, kind, waits⟩ := awaits
  obtain ⟨other, front, same⟩ := List.mem_map.mp placed
  have present : other ∈ schedule.nodes := by
    rw [split]
    exact List.mem_append_left _ front
  cases wellFormed.node_unique present member same
  exact wellFormed.mem_front split front waits

theorem Leads.exists_awaits (leads : schedule.Leads before item) :
    ∃ last, schedule.Awaits last item := by
  cases leads with
  | single awaits => exact ⟨_, awaits⟩
  | tail _ awaits => exact ⟨_, awaits⟩

/-- What leads to an item stands in front of it. -/
theorem Leads.mem_earlier {node : ScheduledNode} (leads : schedule.Leads before node.item)
    (wellFormed : schedule.WellFormed) (split : schedule.nodes = earlier ++ node :: later) :
    before ∈ earlier.map (·.item) := by
  have direct : ∀ last, schedule.Awaits last node.item → last ∈ earlier.map (·.item) := by
    rintro last ⟨other, present, same, kind, waits⟩
    have member : node ∈ schedule.nodes := by simp [split]
    cases wellFormed.node_unique present member same
    exact wellFormed.ordered earlier _ later split _ waits
  cases leads with
  | single awaits => exact direct before awaits
  | @tail last _ leads awaits =>
      have placed := direct last awaits
      clear awaits
      induction leads with
      | single awaits => exact awaits.mem_front wellFormed split placed
      | tail _ awaits ih => exact ih (awaits.mem_front wellFormed split placed)

end Schedule

namespace Inventory

variable {inventory : Inventory} {schedule : Schedule} {ordinal : Ordinal}
  {source target entry item held : WorkItem}

/-! ## Markers on the way -/

/-- A marker holds nothing back that an earlier batch needs. -/
theorem isDue_of_isHeldBack
    (heldBack : inventory.isHeldBack inventory.effectiveGroups ordinal item = true) :
    inventory.IsDue ordinal item := by
  simp only [isHeldBack, Bool.and_eq_true, decide_eq_true_eq] at heldBack
  obtain ⟨⟨_, own⟩, effective⟩ := heldBack
  refine ⟨own, fun target group reaches grouped => ?_⟩
  have needed : inventory.effectiveGroups.HasBy target group :=
    Graph.effectiveGroups_hasBy_own inventory.isSimple_relationGraph
      inventory.sources_relationGraph (inventory.isSpanned_relationGraph.mem_of_reaches reaches)
      grouped
  obtain ⟨found, lookup, early⟩ := hasBy_of_reaches reaches needed
  rw [effective] at lookup
  cases lookup
  exact early

/-- The constraints of the markers: into a marker of a batch behind another one, and from it to what
it holds back. -/
theorem IsOrderly.marker_of_mem_batchEdges (orderly : inventory.IsOrderly) {edge : Edge}
    (member : edge ∈ inventory.batchEdges) :
    ∃ ordinal ∈ inventory.markedOrdinals, edge.target = .marker ordinal ∨
      edge.source = .marker ordinal ∧ edge.target.isMarker = false ∧
        inventory.IsDue ordinal edge.target := by
  obtain ⟨_, _, ordinal, succession, _, edgeOf⟩ :=
    exists_markerEdges_of_mem_markerEdgesAll orderly.ascending.pairwise_successions (by simp) member
  refine ⟨ordinal, mem_markedOrdinals_of_mem_successions succession, ?_⟩
  rcases mem_markerEdges.mp edgeOf with ⟨_, _, _, rfl⟩ | ⟨_, _, rfl⟩ | ⟨item, _, heldBack, rfl⟩
  · exact .inl rfl
  · exact .inl rfl
  · have due := isDue_of_isHeldBack heldBack
    simp only [Inventory.isHeldBack, Bool.and_eq_true, Bool.not_eq_true'] at heldBack
    exact .inr ⟨rfl, heldBack.1.1, due⟩

/-- An item waits for the marker of a batch only if it belongs to it, and no earlier batch needs
it. -/
theorem IsOrderly.adjacent_cases (orderly : inventory.IsOrderly)
    (adjacent : inventory.constraintGraph.Adjacent source target)
    (unmarked : target.isMarker = false) :
    inventory.relationGraph.Adjacent source target ∨
      ∃ ordinal, source = .marker ordinal ∧ inventory.IsDue ordinal target := by
  rw [constraintGraph_eq, Graph.adjacent_connectAll] at adjacent
  rcases adjacent with related | ⟨edge, member, rfl, rfl⟩
  · exact .inl related
  · obtain ⟨ordinal, _, marker | ⟨source, _, due⟩⟩ := orderly.marker_of_mem_batchEdges member
    · rw [marker] at unmarked
      cases unmarked
    · exact .inr ⟨ordinal, source, due⟩

/-- Only markers of batches behind another one wait for anything. -/
theorem IsOrderly.mem_markedOrdinals (orderly : inventory.IsOrderly)
    (reaches : inventory.constraintGraph.Reaches entry (.marker ordinal)) :
    ordinal ∈ inventory.markedOrdinals := by
  have entered : ∃ source, inventory.constraintGraph.Adjacent source (.marker ordinal) := by
    cases reaches with
    | edge adjacent => exact ⟨_, adjacent⟩
    | trans _ adjacent => exact ⟨_, adjacent⟩
  obtain ⟨source, adjacent⟩ := entered
  rw [constraintGraph_eq, Graph.adjacent_connectAll] at adjacent
  rcases adjacent with related | ⟨edge, member, rfl, same⟩
  · have apart := (orderly.apart.relations _ _ related).2
    cases apart
  · obtain ⟨other, marked, marker | ⟨_, unmarked, _⟩⟩ := orderly.marker_of_mem_batchEdges member
    · cases same.symm.trans marker
      exact marked
    · rw [same] at unmarked
      cases unmarked

/-- A way to an item keeps to dependencies and finalizers behind the last marker on it. -/
theorem IsOrderly.reaches_cases (orderly : inventory.IsOrderly)
    (reaches : inventory.constraintGraph.Reaches entry item)
    (entryUnmarked : entry.isMarker = false) (unmarked : item.isMarker = false) :
    inventory.relationGraph.Reaches entry item ∨
      ∃ ordinal held, inventory.IsDue ordinal held ∧
        (held = item ∨ inventory.relationGraph.Reaches held item) ∧
        inventory.constraintGraph.Reaches entry (.marker ordinal) := by
  induction reaches with
  | edge adjacent =>
      rcases orderly.adjacent_cases adjacent unmarked with related | ⟨ordinal, rfl, _⟩
      · exact .inl (.edge related)
      · cases entryUnmarked
  | @trans middle target reaches adjacent ih =>
      rcases orderly.adjacent_cases adjacent unmarked with related | ⟨ordinal, rfl, due⟩
      · rcases ih (orderly.apart.relations middle target related).1 with
          before | ⟨ordinal, held, due, waits, ahead⟩
        · exact .inl (.trans before related)
        · refine .inr ⟨ordinal, held, due, .inr ?_, ahead⟩
          rcases waits with rfl | behind
          · exact .edge related
          · exact .trans behind related
      · exact .inr ⟨ordinal, target, due, .inl rfl, reaches⟩

/-- A marker leads to whatever waits for an item that it holds back. -/
theorem IsOrderly.reaches_of_due (orderly : inventory.IsOrderly)
    (marked : ordinal ∈ inventory.markedOrdinals) (due : inventory.IsDue ordinal held)
    (waits : held = item ∨ inventory.relationGraph.Reaches held item)
    (indexed : item ∈ inventory.index) (unmarked : item.isMarker = false) :
    inventory.constraintGraph.Reaches (.marker ordinal) item := by
  have present : held ∈ inventory.index ∧ held.isMarker = false := by
    rcases waits with rfl | reaches
    · exact ⟨indexed, unmarked⟩
    · obtain ⟨next, adjacent⟩ := reaches.exists_adjacent
      exact ⟨(adjacent_relationGraph.mp adjacent).1,
        (orderly.apart.relations held next adjacent).1⟩
  have heldBack : inventory.isHeldBack inventory.effectiveGroups ordinal held = true := by
    simp only [Inventory.isHeldBack, present.2, due.own, due.find?_effectiveGroups present.1,
      Bool.not_false, decide_true, Bool.and_self]
  exact reaches_of_isBehind ⟨marked, held, present.1, heldBack, waits⟩

/-! ## Schedules -/

theorem IsOrderly.awaits_iff (orderly : inventory.IsOrderly)
    (scheduled : inventory.schedule = .ok schedule) :
    schedule.Awaits source target ↔ inventory.constraintGraph.Adjacent source target := by
  constructor
  · rintro ⟨node, member, rfl, kind, waits⟩
    rw [(node_of_schedule scheduled member).2] at waits
    exact Graph.mem_predecessors.mp (List.mem_map_of_mem waits)
  · intro adjacent
    have indexed : target ∈ inventory.index := by
      have split := adjacent
      rw [constraintGraph_eq, Graph.adjacent_connectAll] at split
      rcases split with related | ⟨edge, member, rfl, rfl⟩
      · exact (adjacent_relationGraph.mp related).2.1
      · exact orderly.target_mem_index member
    exact ⟨_, mem_nodes_of_mem_index scheduled indexed, rfl,
      exists_mem_predecessors scheduled (mem_nodes_of_mem_index scheduled indexed) adjacent⟩

theorem IsOrderly.leads_iff_reaches (orderly : inventory.IsOrderly)
    (scheduled : inventory.schedule = .ok schedule) :
    schedule.Leads source target ↔ inventory.constraintGraph.Reaches source target := by
  have same : schedule.Awaits = inventory.constraintGraph.Adjacent :=
    funext₂ fun _ _ => propext (orderly.awaits_iff scheduled)
  rw [Graph.reaches_iff_transGen, Schedule.Leads, same]

/-- An item leads to a node through dependencies and finalizers alone, or through the marker of an
item that no earlier batch needs and that is the node or leads to it. -/
theorem IsOrderly.leads_iff (orderly : inventory.IsOrderly)
    (scheduled : inventory.schedule = .ok schedule) {node : ScheduledNode}
    (member : node ∈ schedule.nodes) (unmarked : node.isMarker = false)
    (entryUnmarked : entry.isMarker = false) :
    schedule.Leads entry node.item ↔ inventory.relationGraph.Reaches entry node.item ∨
      ∃ ordinal held, inventory.IsDue ordinal held ∧
        (held = node.item ∨ inventory.relationGraph.Reaches held node.item) ∧
        schedule.Leads entry (.marker ordinal) := by
  simp only [orderly.leads_iff_reaches scheduled]
  constructor
  · exact fun reaches => orderly.reaches_cases reaches entryUnmarked unmarked
  · rintro (related | ⟨ordinal, held, due, waits, ahead⟩)
    · exact related.mono fun _ _ => adjacent_constraintGraph
    · exact ahead.append (orderly.reaches_of_due (orderly.mem_markedOrdinals ahead) due waits
        (node_of_schedule scheduled member).1 unmarked)

end Inventory

end TaskPlanner
