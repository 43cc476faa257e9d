import Mathlib.Data.Nat.Find
import TaskPlanner.Proofs.Schedule.Constraints

/-! Markers close a cycle if and only if a requested item waits for the marker of a batch behind its
own. Along every other constraint the last marker that an item is behind stays or grows, and every
constraint of a marker makes it grow. -/

set_option autoImplicit false

namespace TaskPlanner

namespace Graph

variable {graph larger : Graph} {source target : WorkItem}

theorem Reaches.mono (included : ∀ source target, graph.Adjacent source target →
      larger.Adjacent source target) (reaches : graph.Reaches source target) :
    larger.Reaches source target := by
  induction reaches with
  | edge adjacent => exact .edge (included _ _ adjacent)
  | trans _ adjacent ih => exact .trans ih (included _ _ adjacent)

end Graph

/-- The marker of the batch waits for the item, directly or through the markers in between. -/
inductive MarkerChain (waits : WorkItem → WorkItem → Prop) (item : WorkItem) : Ordinal → Prop where
  | entry {ordinal : Ordinal} : waits item (.marker ordinal) → MarkerChain waits item ordinal
  | marker {earlier ordinal : Ordinal} : MarkerChain waits item earlier →
      waits (.marker earlier) (.marker ordinal) → MarkerChain waits item ordinal

namespace MarkerChain

variable {waits : WorkItem → WorkItem → Prop} {item : WorkItem} {first ordinal : Ordinal}

theorem behind (next : waits item (.marker first))
    (chain : MarkerChain waits (.marker first) ordinal) : MarkerChain waits item ordinal := by
  induction chain with
  | entry direct => exact .marker (.entry next) direct
  | marker _ direct ih => exact .marker ih direct

theorem reaches {graph : Graph} (chain : MarkerChain graph.Adjacent item ordinal) :
    graph.Reaches item (.marker ordinal) := by
  induction chain with
  | entry direct => exact .edge direct
  | marker _ direct ih => exact .trans ih direct

end MarkerChain

namespace Inventory

variable {inventory : Inventory} {ordinal later : Ordinal} {item source target entry : WorkItem}

/-- The marker of the batch `ordinal` holds the item back, or an item that it waits for. -/
def IsBehind (inventory : Inventory) (ordinal : Ordinal) (item : WorkItem) : Prop :=
  ordinal ∈ inventory.markedOrdinals ∧ ∃ held ∈ inventory.index,
    inventory.isHeldBack inventory.effectiveGroups ordinal held = true ∧
      (held = item ∨ inventory.relationGraph.Reaches held item)

/-- An item that was requested in one batch is behind the marker of a later one. -/
def IsOvertaken (inventory : Inventory) : Prop :=
  ∃ ordinal ∈ inventory.batches.ordinals, ∃ entry ∈ inventory.batches.entriesOf ordinal,
    entry ∈ inventory.index ∧ ∃ later, ordinal < later ∧ inventory.IsBehind later entry

theorem IsBehind.step (behind : inventory.IsBehind ordinal source)
    (adjacent : inventory.relationGraph.Adjacent source target) :
    inventory.IsBehind ordinal target := by
  obtain ⟨marked, held, indexed, heldBack, rfl | reaches⟩ := behind
  · exact ⟨marked, held, indexed, heldBack, .inr (.edge adjacent)⟩
  · exact ⟨marked, held, indexed, heldBack, .inr (.trans reaches adjacent)⟩

/-! ## Batches in good time -/

theorem hasBy_of_reaches (reaches : inventory.relationGraph.Reaches source target)
    (has : inventory.effectiveGroups.HasBy target ordinal) :
    inventory.effectiveGroups.HasBy source ordinal :=
  Graph.effectiveGroups_hasBy_of_reaches inventory.isSimple_relationGraph
    inventory.sources_relationGraph reaches has

/-- No later batch holds back an item that belongs to its batch or to an earlier one. -/
theorem not_isBehind_of_dueBy (indexed : item ∈ inventory.index)
    (due : (inventory.node item).DueBy ordinal) (order : ordinal < later) :
    ¬ inventory.IsBehind later item := by
  rintro ⟨_, held, _, heldBack, waits⟩
  obtain ⟨group, present, early⟩ := due
  have vertex : item ∈ inventory.relationGraph.vertices := by
    rw [vertices_relationGraph]
    exact indexed
  have own : inventory.effectiveGroups.HasBy item ordinal :=
    (Graph.effectiveGroups_hasBy_own inventory.isSimple_relationGraph
      inventory.sources_relationGraph vertex present).mono early
  have has : inventory.effectiveGroups.HasBy held ordinal := by
    rcases waits with rfl | reaches
    · exact own
    · exact hasBy_of_reaches reaches own
  obtain ⟨found, lookup, bound⟩ := has
  simp only [isHeldBack, Bool.and_eq_true, decide_eq_true_eq] at heldBack
  rw [heldBack.2] at lookup
  cases lookup
  exact absurd order (Fin.not_lt.mpr bound)

theorem Batched.not_isOvertaken (batched : inventory.Batched) : ¬ inventory.IsOvertaken := by
  rintro ⟨ordinal, _, entry, listed, indexed, later, order, behind⟩
  obtain ⟨batch, member, rfl, requested⟩ := Batches.mem_of_mem_entriesOf listed
  exact not_isBehind_of_dueBy indexed (batched.joined batch member entry requested) order behind

/-! ## Markers in a row -/

theorem markerChain_of_marker {waits : WorkItem → WorkItem → Prop} {effective : GroupTable}
    {first : Ordinal} {rest : List Ordinal}
    (edges : ∀ edge ∈ inventory.markerEdgesAll effective (some first) ((first :: rest).zip rest),
      waits edge.source edge.target) (member : later ∈ rest) :
    MarkerChain waits (.marker first) later := by
  induction rest generalizing first with
  | nil => cases member
  | cons second rest ih =>
      have next : waits (.marker first) (.marker second) :=
        edges ⟨.marker first, .marker second, .ordinal⟩
          (List.mem_append_left _ (mem_markerEdges.mpr (.inr (.inl ⟨first, rfl, rfl⟩))))
      rcases List.mem_cons.mp member with rfl | inside
      · exact .entry next
      · have further := ih (fun edge present => edges edge (List.mem_append_right _ present)) inside
        exact .behind next further

/-- The markers of all later batches wait for what is requested in one. -/
theorem markerChain_of_entry {waits : WorkItem → WorkItem → Prop} {effective : GroupTable}
    {ordinals : List Ordinal} {before : Option Ordinal} (ascending : ordinals.Pairwise (· < ·))
    (edges : ∀ edge ∈ inventory.markerEdgesAll effective before (ordinals.zip ordinals.tail),
      waits edge.source edge.target)
    (listed : entry ∈ inventory.batches.entriesOf ordinal) (indexed : entry ∈ inventory.index)
    (member : ordinal ∈ ordinals) (laterMember : later ∈ ordinals) (order : ordinal < later) :
    MarkerChain waits entry later := by
  induction ordinals generalizing before with
  | nil => cases member
  | cons first rest ih =>
      obtain ⟨least, restAscending⟩ := List.pairwise_cons.mp ascending
      have laterBehind : later ∈ rest := by
        rcases List.mem_cons.mp laterMember with rfl | inside
        · rcases List.mem_cons.mp member with rfl | before
          · exact absurd order (Fin.lt_irrefl _)
          · exact absurd (Fin.lt_trans order (least ordinal before)) (Fin.lt_irrefl _)
        · exact inside
      cases rest with
      | nil => cases laterBehind
      | cons second rest =>
          have further := fun edge present => edges edge (List.mem_append_right _ present)
          rcases List.mem_cons.mp member with rfl | inside
          · have next : waits entry (.marker second) :=
              edges ⟨entry, .marker second, .ordinal⟩ (List.mem_append_left _
                (mem_markerEdges.mpr (.inl ⟨entry, listed, indexed, rfl⟩)))
            rcases List.mem_cons.mp laterBehind with rfl | behind
            · exact .entry next
            · exact .behind next (markerChain_of_marker further behind)
          · exact ih restAscending further inside laterBehind

/-! ## Levels -/

open Classical in
/-- How far behind an item is: one more than the last ordinal whose marker it is behind. -/
noncomputable def level (inventory : Inventory) (item : WorkItem) : Nat :=
  Nat.findGreatest (fun count => ∃ ordinal : Ordinal, count = ordinal.val + 1 ∧
    inventory.IsBehind ordinal item) 4294967296

theorem IsBehind.lt_level (behind : inventory.IsBehind ordinal item) :
    ordinal.val < inventory.level item := by
  classical
  exact Nat.le_findGreatest ordinal.isLt ⟨ordinal, rfl, behind⟩

theorem level_le {bound : Nat}
    (low : ∀ ordinal, inventory.IsBehind ordinal item → ordinal.val < bound) :
    inventory.level item ≤ bound := by
  classical
  by_cases zero : inventory.level item = 0
  · rw [zero]
    exact Nat.zero_le bound
  · obtain ⟨ordinal, same, behind⟩ := Nat.findGreatest_of_ne_zero rfl zero
    have below := low ordinal behind
    unfold level
    omega

/-- Markers count by their ordinals, other items by the markers that they are behind. -/
noncomputable def rank (inventory : Inventory) : WorkItem → Nat
  | .marker ordinal => 2 * (ordinal.val + 1)
  | item => 2 * inventory.level item + 1

theorem rank_of_not_isMarker (unmarked : item.isMarker = false) :
    inventory.rank item = 2 * inventory.level item + 1 := by
  cases item with
  | marker ordinal => cases unmarked
  | task name => rfl
  | delegated build name => rfl

theorem MarkersApart.rank_le_of_adjacent (apart : inventory.MarkersApart)
    (adjacent : inventory.relationGraph.Adjacent source target) :
    inventory.rank source ≤ inventory.rank target := by
  obtain ⟨sourceUnmarked, targetUnmarked⟩ := apart.relations source target adjacent
  have order : inventory.level source ≤ inventory.level target :=
    level_le fun _ behind => (behind.step adjacent).lt_level
  rw [rank_of_not_isMarker sourceUnmarked, rank_of_not_isMarker targetUnmarked]
  omega

/-- Unless a requested item is overtaken, the constraints of markers raise the rank. -/
theorem rank_lt_of_mem_batchEdges (ascending : inventory.batches.IsAscending)
    (apart : inventory.MarkersApart) (inOrder : ¬ inventory.IsOvertaken) {edge : Edge}
    (member : edge ∈ inventory.batchEdges) :
    inventory.rank edge.source < inventory.rank edge.target := by
  obtain ⟨last, previous, ordinal, succession, bound, edgeOf⟩ :=
    exists_markerEdges_of_mem_markerEdgesAll ascending.pairwise_successions (by simp) member
  have grows := Fin.lt_def.mp (ascending.lt_of_mem_successions succession)
  rcases mem_markerEdges.mp edgeOf with
    ⟨entry, listed, indexed, rfl⟩ | ⟨earlier, known, rfl⟩ | ⟨item, indexed, heldBack, rfl⟩
  · obtain ⟨batch, batchMember, _, requested⟩ := Batches.mem_of_mem_entriesOf listed
    have low : inventory.level entry ≤ previous.val + 1 := by
      refine level_le fun later behind => ?_
      by_contra high
      have order : previous < later := Fin.lt_def.mpr (by omega)
      exact inOrder ⟨previous, (List.of_mem_zip succession).1, entry, listed, indexed, later, order,
        behind⟩
    show inventory.rank entry < 2 * (ordinal.val + 1)
    rw [rank_of_not_isMarker (apart.entries batch batchMember entry requested)]
    omega
  · have order := Fin.lt_def.mp (bound earlier known).1
    show 2 * (earlier.val + 1) < 2 * (ordinal.val + 1)
    omega
  · have behind : inventory.IsBehind ordinal item :=
      ⟨mem_markedOrdinals_of_mem_successions succession, item, indexed, heldBack, .inl rfl⟩
    have high := behind.lt_level
    simp only [isHeldBack, Bool.and_eq_true, Bool.not_eq_true'] at heldBack
    show 2 * (ordinal.val + 1) < inventory.rank item
    rw [rank_of_not_isMarker heldBack.1.1]
    omega

/-! ## Cycles -/

theorem adjacent_of_mem_batchEdges {edge : Edge} (member : edge ∈ inventory.batchEdges) :
    inventory.constraintGraph.Adjacent edge.source edge.target := by
  rw [constraintGraph_eq, Graph.adjacent_connectAll]
  exact .inr ⟨edge, member, rfl, rfl⟩

theorem adjacent_constraintGraph (adjacent : inventory.relationGraph.Adjacent source target) :
    inventory.constraintGraph.Adjacent source target := by
  rw [constraintGraph_eq, Graph.adjacent_connectAll]
  exact .inl adjacent

theorem exists_markerEdges_subset (inventory : Inventory) (effective : GroupTable)
    (before : Option Ordinal) {successions : List (Ordinal × Ordinal)} {previous : Ordinal}
    (member : (previous, ordinal) ∈ successions) :
    ∃ last, inventory.markerEdges effective last previous ordinal ⊆
      inventory.markerEdgesAll effective before successions := by
  induction successions generalizing before with
  | nil => cases member
  | cons succession rest ih =>
      rcases List.mem_cons.mp member with rfl | later
      · exact ⟨before, List.subset_append_left _ _⟩
      · obtain ⟨last, included⟩ := ih (some succession.2) later
        exact ⟨last, List.subset_append_of_subset_right _ included⟩

theorem exists_succession (marked : ordinal ∈ inventory.markedOrdinals) :
    ∃ previous, (previous, ordinal) ∈ inventory.batches.successions := by
  have seconds : inventory.batches.successions.map (·.2) = inventory.markedOrdinals :=
    List.map_snd_zip (by simp)
  rw [← seconds] at marked
  obtain ⟨⟨previous, _⟩, succession, rfl⟩ := List.mem_map.mp marked
  exact ⟨previous, succession⟩

/-- What a marker holds back waits for it. -/
theorem reaches_of_isBehind (behind : inventory.IsBehind ordinal item) :
    inventory.constraintGraph.Reaches (.marker ordinal) item := by
  obtain ⟨marked, held, indexed, heldBack, waits⟩ := behind
  obtain ⟨previous, succession⟩ := exists_succession marked
  obtain ⟨last, included⟩ := inventory.exists_markerEdges_subset inventory.effectiveGroups none
    succession
  have holds : inventory.constraintGraph.Adjacent (.marker ordinal) held :=
    adjacent_of_mem_batchEdges
      (included (mem_markerEdges.mpr (.inr (.inr ⟨held, indexed, heldBack, rfl⟩))))
  rcases waits with rfl | reaches
  · exact .edge holds
  · exact (Graph.Reaches.edge holds).append
      (reaches.mono fun _ _ => adjacent_constraintGraph)

/-- The markers close no cycle unless a requested item is overtaken. -/
theorem acyclic_constraintGraph_iff (ascending : inventory.batches.IsAscending)
    (apart : inventory.MarkersApart) :
    inventory.constraintGraph.Acyclic ↔
      inventory.relationGraph.Acyclic ∧ ¬ inventory.IsOvertaken := by
  constructor
  · intro acyclic
    constructor
    · intro item reaches
      exact acyclic item (reaches.mono fun _ _ => adjacent_constraintGraph)
    · rintro ⟨ordinal, member, entry, listed, indexed, later, order, behind⟩
      have ahead : MarkerChain inventory.constraintGraph.Adjacent entry later :=
        markerChain_of_entry ascending (fun _ => adjacent_of_mem_batchEdges) listed indexed
          member (List.mem_of_mem_tail behind.1) order
      exact acyclic entry (ahead.reaches.append (reaches_of_isBehind behind))
  · rintro ⟨acyclic, inOrder⟩
    refine acyclic.of_rank inventory.rank fun source target adjacent => ?_
    rw [constraintGraph_eq, Graph.adjacent_connectAll] at adjacent
    rcases adjacent with related | ⟨edge, member, rfl, rfl⟩
    · exact .inl ⟨related, apart.rank_le_of_adjacent related⟩
    · exact .inr (rank_lt_of_mem_batchEdges ascending apart inOrder member)

theorem Batched.acyclic_constraintGraph (batched : inventory.Batched)
    (apart : inventory.MarkersApart) (acyclic : inventory.relationGraph.Acyclic) :
    inventory.constraintGraph.Acyclic :=
  (acyclic_constraintGraph_iff batched.ascending apart).mpr ⟨acyclic, batched.not_isOvertaken⟩

end Inventory

end TaskPlanner
