import TaskPlanner.Proofs.Graph.EffectiveGroups

/-! The constraints of an inventory are those that dependencies and finalizers ask for and
those of the markers. The constraints of a marker come from one succession of batches. -/

set_option autoImplicit false

namespace TaskPlanner

namespace Inventory

/-! ## Dependencies and finalizers -/

/-- `target` has to wait for `source`: it depends on it, or finalizes it. -/
def Relates (inventory : Inventory) (source target : WorkItem) : Prop :=
  source ∈ (inventory.relations target).dependencies ∨
    target ∈ (inventory.relations source).finalizers

theorem mem_relationEdgesOf {inventory : Inventory} {item source target : WorkItem} :
    (∃ edge ∈ inventory.relationEdgesOf item, edge.source = source ∧ edge.target = target) ↔
      (target = item ∧ source ∈ inventory.index ∧
        source ∈ (inventory.relations item).dependencies) ∨
      (source = item ∧ target ∈ inventory.index ∧
        target ∈ (inventory.relations item).finalizers) := by
  simp only [relationEdgesOf, List.mem_append, List.mem_map, List.mem_filter, decide_eq_true_eq]
  constructor
  · rintro ⟨edge, ⟨other, ⟨related, present⟩, rfl⟩ | ⟨other, ⟨related, present⟩, rfl⟩, rfl, rfl⟩
    · exact .inl ⟨rfl, present, related⟩
    · exact .inr ⟨rfl, present, related⟩
  · rintro (⟨rfl, present, related⟩ | ⟨rfl, present, related⟩)
    · exact ⟨_, .inl ⟨source, ⟨related, present⟩, rfl⟩, rfl, rfl⟩
    · exact ⟨_, .inr ⟨target, ⟨related, present⟩, rfl⟩, rfl, rfl⟩

theorem relationGraph_eq (inventory : Inventory) :
    inventory.relationGraph =
      ({ vertices := inventory.index.items } : Graph).connectAll
        (inventory.index.items.flatMap inventory.relationEdgesOf) := rfl

theorem constraintGraph_eq (inventory : Inventory) :
    inventory.constraintGraph = inventory.relationGraph.connectAll inventory.batchEdges := rfl

@[simp] theorem vertices_relationGraph (inventory : Inventory) :
    inventory.relationGraph.vertices = inventory.index.items := by
  rw [relationGraph_eq, Graph.vertices_connectAll]

@[simp] theorem vertices_constraintGraph (inventory : Inventory) :
    inventory.constraintGraph.vertices = inventory.index.items := by
  rw [constraintGraph_eq, Graph.vertices_connectAll, vertices_relationGraph]

theorem isSimple_relationGraph (inventory : Inventory) : inventory.relationGraph.IsSimple := by
  have unconnected : ({ vertices := inventory.index.items } : Graph).IsSimple := List.Pairwise.nil
  exact unconnected.connectAll _

/-- The relation graph joins exactly the items of the index that are related. -/
theorem adjacent_relationGraph {inventory : Inventory} {source target : WorkItem} :
    inventory.relationGraph.Adjacent source target ↔
      source ∈ inventory.index ∧ target ∈ inventory.index ∧ inventory.Relates source target := by
  rw [relationGraph_eq, Graph.adjacent_connectAll]
  constructor
  · rintro (⟨_, impossible, _⟩ | ⟨edge, member, joined⟩)
    · cases impossible
    · obtain ⟨item, listed, edgeOf⟩ := List.mem_flatMap.mp member
      rcases mem_relationEdgesOf.mp ⟨edge, edgeOf, joined⟩ with
        ⟨rfl, present, related⟩ | ⟨rfl, present, related⟩
      · exact ⟨present, listed, .inl related⟩
      · exact ⟨listed, present, .inr related⟩
  · rintro ⟨sourceListed, targetListed, related | related⟩
    · obtain ⟨edge, member, joined⟩ := mem_relationEdgesOf.mpr (.inl ⟨rfl, sourceListed, related⟩)
      exact .inr ⟨edge, List.mem_flatMap.mpr ⟨target, targetListed, member⟩, joined⟩
    · obtain ⟨edge, member, joined⟩ := mem_relationEdgesOf.mpr (.inr ⟨rfl, targetListed, related⟩)
      exact .inr ⟨edge, List.mem_flatMap.mpr ⟨source, sourceListed, member⟩, joined⟩

/-! ## Markers -/

theorem mem_markerEdges {inventory : Inventory} {effective : GroupTable} {before : Option Ordinal}
    {previous ordinal : Ordinal} {edge : Edge} :
    edge ∈ inventory.markerEdges effective before previous ordinal ↔
      (∃ entry ∈ inventory.batches.entriesOf previous, entry ∈ inventory.index ∧
        edge = ⟨entry, .marker ordinal, .ordinal⟩) ∨
      (∃ earlier, before = some earlier ∧ edge = ⟨.marker earlier, .marker ordinal, .ordinal⟩) ∨
      (∃ item ∈ inventory.index, inventory.isHeldBack effective ordinal item = true ∧
        edge = ⟨.marker ordinal, item, .ordinal⟩) := by
  simp only [markerEdges, List.mem_append, List.mem_map, List.mem_filter, decide_eq_true_eq,
    Option.mem_toList, or_assoc]
  refine or_congr ?_ (or_congr ?_ ?_)
  · exact exists_congr fun entry => by rw [and_assoc, eq_comm (b := edge)]
  · exact exists_congr fun earlier => by rw [eq_comm (b := edge)]
  · exact exists_congr fun item => by rw [and_assoc, eq_comm (b := edge)]; rfl

/-- Every constraint of a marker belongs to one succession of batches, and the marker before it
to an earlier one. -/
theorem exists_markerEdges_of_mem_markerEdgesAll {inventory : Inventory} {effective : GroupTable}
    {successions : List (Ordinal × Ordinal)} {before : Option Ordinal} {edge : Edge}
    (ascending : successions.Pairwise fun left right => left.2 < right.2)
    (behind : ∀ earlier, before = some earlier → ∀ succession ∈ successions, earlier < succession.2)
    (member : edge ∈ inventory.markerEdgesAll effective before successions) :
    ∃ last previous ordinal, (previous, ordinal) ∈ successions ∧
      (∀ earlier, last = some earlier → earlier < ordinal ∧
        (before = some earlier ∨ ∃ first, (first, earlier) ∈ successions)) ∧
      edge ∈ inventory.markerEdges effective last previous ordinal := by
  induction successions generalizing before with
  | nil => cases member
  | cons succession rest ih =>
      obtain ⟨previous, ordinal⟩ := succession
      obtain ⟨first, restAscending⟩ := List.pairwise_cons.mp ascending
      rcases List.mem_append.mp member with here | later
      · exact ⟨before, previous, ordinal, List.mem_cons_self,
          fun earlier known => ⟨behind earlier known _ List.mem_cons_self, .inl known⟩, here⟩
      · obtain ⟨last, previous', ordinal', listed, bound, edgeOf⟩ := ih restAscending (by
          intro earlier known succession member
          cases known
          exact first succession member) later
        refine ⟨last, previous', ordinal', List.mem_cons_of_mem _ listed, ?_, edgeOf⟩
        intro earlier known
        obtain ⟨below, same | ⟨origin, present⟩⟩ := bound earlier known
        · cases same
          exact ⟨below, .inr ⟨previous, List.mem_cons_self⟩⟩
        · exact ⟨below, .inr ⟨origin, List.mem_cons_of_mem _ present⟩⟩

end Inventory

namespace Batches

/-- Batches are kept in the order of their ordinals. -/
def IsAscending (registry : Batches) : Prop := registry.ordinals.Pairwise (· < ·)

private theorem lt_of_mem_zip_tail {ordinals : List Ordinal} (ascending : ordinals.Pairwise (· < ·))
    {previous ordinal : Ordinal} (member : (previous, ordinal) ∈ ordinals.zip ordinals.tail) :
    previous < ordinal := by
  induction ordinals with
  | nil => cases member
  | cons head rest ih =>
      obtain ⟨first, restAscending⟩ := List.pairwise_cons.mp ascending
      cases rest with
      | nil => cases member
      | cons second later =>
          rcases List.mem_cons.mp member with same | inside
          · cases same
            exact first _ List.mem_cons_self
          · exact ih restAscending inside

theorem IsAscending.lt_of_mem_successions {registry : Batches} (ascending : registry.IsAscending)
    {previous ordinal : Ordinal} (member : (previous, ordinal) ∈ registry.successions) :
    previous < ordinal :=
  lt_of_mem_zip_tail ascending member

theorem IsAscending.pairwise_successions {registry : Batches} (ascending : registry.IsAscending) :
    registry.successions.Pairwise fun left right => left.2 < right.2 := by
  have seconds : registry.successions.map (·.2) = registry.ordinals.tail :=
    List.map_snd_zip (by simp)
  exact List.pairwise_map.mp (seconds ▸ ascending.tail)

theorem mem_of_mem_entriesOf {registry : Batches} {ordinal : Ordinal} {entry : WorkItem}
    (member : entry ∈ registry.entriesOf ordinal) :
    ∃ batch ∈ registry.batches, batch.ordinal = ordinal ∧ entry ∈ batch.entries := by
  unfold entriesOf find? at member
  cases found : registry.batches.find? (·.ordinal = ordinal) with
  | none => simp [found] at member
  | some batch =>
      refine ⟨batch, List.mem_of_find?_eq_some found, ?_, ?_⟩
      · simpa using List.find?_some found
      · simpa [found, ItemSet.mem_def] using member

end Batches

/-- The node belongs to the batch `ordinal` or to an earlier one. -/
def Node.DueBy (node : Node) (ordinal : Ordinal) : Prop :=
  ∃ group, node.group = some group ∧ group ≤ ordinal

namespace Inventory

/-- What requests see to: every requested item belongs to its batch or to an earlier one. -/
structure Batched (inventory : Inventory) : Prop where
  ascending : inventory.batches.IsAscending
  joined : ∀ batch ∈ inventory.batches.batches, ∀ entry ∈ batch.entries,
    (inventory.node entry).DueBy batch.ordinal

/-- Nobody but the ordering of the plan deals with markers. -/
structure MarkersApart (inventory : Inventory) : Prop where
  entries : ∀ batch ∈ inventory.batches.batches, ∀ entry ∈ batch.entries, entry.isMarker = false
  relations : ∀ source target, inventory.relationGraph.Adjacent source target →
    source.isMarker = false ∧ target.isMarker = false

theorem isSpanned_relationGraph (inventory : Inventory) : inventory.relationGraph.IsSpanned := by
  intro source target adjacent
  rw [vertices_relationGraph]
  exact ⟨(adjacent_relationGraph.mp adjacent).1, (adjacent_relationGraph.mp adjacent).2.1⟩

theorem sources_relationGraph (inventory : Inventory) (source target : WorkItem)
    (adjacent : inventory.relationGraph.Adjacent source target) :
    source ∈ inventory.relationGraph.vertices :=
  inventory.isSpanned_relationGraph.mem_of_adjacent source target adjacent

theorem mem_markedOrdinals_of_mem_successions {inventory : Inventory}
    {previous ordinal : Ordinal}
    (member : (previous, ordinal) ∈ inventory.batches.successions) :
    ordinal ∈ inventory.markedOrdinals :=
  (List.of_mem_zip member).2

/-- What a marker has to wait for is in the index, or is a marker. -/
theorem source_of_mem_markerEdgesAll {inventory : Inventory} {effective : GroupTable}
    {successions : List (Ordinal × Ordinal)} {before : Option Ordinal} {edge : Edge}
    (member : edge ∈ inventory.markerEdgesAll effective before successions) :
    edge.source ∈ inventory.index ∨ ∃ ordinal, edge.source = .marker ordinal ∧
      (before = some ordinal ∨ ∃ previous, (previous, ordinal) ∈ successions) := by
  induction successions generalizing before with
  | nil => cases member
  | cons succession rest ih =>
      obtain ⟨previous, ordinal⟩ := succession
      rcases List.mem_append.mp member with here | later
      · rcases mem_markerEdges.mp here with
          ⟨entry, _, indexed, rfl⟩ | ⟨earlier, known, rfl⟩ | ⟨item, _, _, rfl⟩
        · exact .inl indexed
        · exact .inr ⟨earlier, rfl, .inl known⟩
        · exact .inr ⟨ordinal, rfl, .inr ⟨previous, List.mem_cons_self⟩⟩
      · rcases ih later with indexed | ⟨marked, same, known | ⟨first, listed⟩⟩
        · exact .inl indexed
        · cases known
          exact .inr ⟨ordinal, same, .inr ⟨previous, List.mem_cons_self⟩⟩
        · exact .inr ⟨marked, same, .inr ⟨first, List.mem_cons_of_mem _ listed⟩⟩

/-- Once its markers are in the index, an inventory only constrains items of the index. -/
theorem source_mem_index {inventory : Inventory}
    (present : ∀ ordinal ∈ inventory.markedOrdinals, WorkItem.marker ordinal ∈ inventory.index)
    (source target : WorkItem) (adjacent : inventory.constraintGraph.Adjacent source target) :
    source ∈ inventory.index := by
  rw [constraintGraph_eq, Graph.adjacent_connectAll] at adjacent
  rcases adjacent with related | ⟨edge, member, rfl, rfl⟩
  · exact (adjacent_relationGraph.mp related).1
  · rcases source_of_mem_markerEdgesAll member with
      indexed | ⟨ordinal, same, impossible | ⟨previous, succession⟩⟩
    · exact indexed
    · cases impossible
    · rw [same]
      exact present ordinal (mem_markedOrdinals_of_mem_successions succession)

end Inventory

end TaskPlanner
