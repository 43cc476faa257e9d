import TaskPlanner.Proofs.Schedule.BatchOrder
import TaskPlanner.Proofs.Schedule.Likeness

/-! Where the markers stand in the index. Two things depend on it: when a marker is placed that
waits for nothing, and in which order a marker and the finalizers released with it are placed.
If neither happens, markers may as well stand behind all other items. -/

set_option autoImplicit false

namespace TaskPlanner

/-! ## Two orders of the same list -/

section

variable {α : Type} {plain keeps : α → Bool} {left right : List α}

/-- If no kept element stands behind a special one that is kept, then that one comes last among the
kept ones. -/
theorem filter_eq_append (last : left.Pairwise fun before behind =>
      plain before = false → keeps before = true → keeps behind = false) :
    left.filter keeps = left.filter (fun element => keeps element && plain element) ++
        left.filter (fun element => keeps element && !plain element) ∧
      (left.filter fun element => keeps element && !plain element).length ≤ 1 := by
  induction left with
  | nil => exact ⟨rfl, Nat.zero_le 1⟩
  | cons head rest ih =>
      obtain ⟨first, restLast⟩ := List.pairwise_cons.mp last
      obtain ⟨split, short⟩ := ih restLast
      cases kept : keeps head with
      | false => simp [kept, ← split, short]
      | true =>
          cases ordinary : plain head with
          | true => simp [kept, ordinary, ← split, short]
          | false =>
              have none : ∀ element ∈ rest, keeps element = false :=
                fun element member => first element member ordinary kept
              have rejected : ∀ other : α → Bool,
                  rest.filter (fun element => keeps element && other element) = [] := by
                refine fun other => List.filter_eq_nil_iff.mpr fun element member => ?_
                simp [none element member]
              simpa [kept, ordinary, rejected] using none

theorem filter_eq_of_last (perm : right.Perm left)
    (order : right.filter plain = left.filter plain)
    (last : left.Pairwise fun before behind =>
      plain before = false → keeps before = true → keeps behind = false)
    (lastToo : right.Pairwise fun before behind =>
      plain before = false → keeps before = true → keeps behind = false) :
    right.filter keeps = left.filter keeps := by
  obtain ⟨split, short⟩ := filter_eq_append last
  obtain ⟨splitToo, _⟩ := filter_eq_append lastToo
  have special := perm.filter fun element => keeps element && !plain element
  rw [split, splitToo]
  congr 1
  · rw [← List.filter_filter, ← List.filter_filter, order]
  · cases found : left.filter fun element => keeps element && !plain element with
    | nil =>
        rw [found] at special
        exact special.eq_nil
    | cons head rest =>
        rw [found, List.length_cons] at short
        obtain rfl : rest = [] := List.eq_nil_of_length_eq_zero (by omega)
        rw [found] at special
        exact special.eq_singleton

end

theorem Lineup.released_eq_filter {graph : Graph} {isUrgent : WorkItem → WorkItem → Bool}
    {lineup : Lineup} {item : WorkItem} {released : List WorkItem}
    (same : ∀ other, other ∈ lineup.released graph isUrgent item ↔ other ∈ released) :
    lineup.released graph isUrgent item = graph.vertices.filter (· ∈ released) := by
  have filtered : ∀ other ∈ graph.vertices,
      (isUrgent item other && (decide (other ∈ graph.successors item) &&
        graph.isReleased (lineup.placed ++ [item]) other)) = decide (other ∈ released) := by
    intro other vertex
    rw [Bool.eq_iff_iff, decide_eq_true_eq, ← same]
    unfold Lineup.released
    rw [List.filter_filter, List.mem_filter]
    exact (and_iff_right vertex).symm
  rw [← List.filter_congr filtered, ← List.filter_filter]
  rfl

namespace Inventory

variable {left right inventory : Inventory} {item : WorkItem} {earlier later ordinal : Ordinal}

/-! ## What markers wait for -/

/-- The markers wait for each other. -/
theorem markerChain_of_lt {waits : WorkItem → WorkItem → Prop} {effective : GroupTable}
    {ordinals : List Ordinal} {before : Option Ordinal} (ascending : ordinals.Pairwise (· < ·))
    (edges : ∀ edge ∈ inventory.markerEdgesAll effective before (ordinals.zip ordinals.tail),
      waits edge.source edge.target)
    (member : earlier ∈ ordinals.tail) (present : later ∈ ordinals.tail) (order : earlier < later) :
    MarkerChain waits (.marker earlier) later := by
  induction ordinals generalizing before with
  | nil => cases member
  | cons first rest ih =>
      cases rest with
      | nil => cases member
      | cons second rest =>
          have further := fun edge present => edges edge (List.mem_append_right _ present)
          obtain ⟨_, restAscending⟩ := List.pairwise_cons.mp ascending
          have behind := (List.pairwise_cons.mp restAscending).1
          rcases List.mem_cons.mp member with rfl | inside
          · refine markerChain_of_marker further ((List.mem_cons.mp present).resolve_left ?_)
            rintro rfl
            exact Fin.lt_irrefl _ order
          · refine ih restAscending further inside ((List.mem_cons.mp present).resolve_left ?_)
            rintro rfl
            exact Fin.lt_irrefl _ (Fin.lt_trans order (behind earlier inside))

/-- The first marker waits for a requested item if there is one, and each other marker waits for the
one before it. -/
theorem exists_source_of_marker (effective : GroupTable) {successions : List (Ordinal × Ordinal)}
    {before : Option Ordinal}
    (first : before = none → ∀ succession ∈ successions.head?,
      ∃ entry ∈ inventory.batches.entriesOf succession.1, entry ∈ inventory.index)
    (member : ordinal ∈ successions.map (·.2)) :
    ∃ edge ∈ inventory.markerEdgesAll effective before successions,
      edge.target = .marker ordinal := by
  induction successions generalizing before with
  | nil => cases member
  | cons succession rest ih =>
      obtain ⟨previous, marked⟩ := succession
      rcases List.mem_cons.mp member with rfl | later
      · cases before with
        | none =>
            obtain ⟨entry, listed, indexed⟩ := first rfl _ rfl
            exact ⟨_, List.mem_append_left _
              (mem_markerEdges.mpr (.inl ⟨entry, listed, indexed, rfl⟩)), rfl⟩
        | some last =>
            exact ⟨_, List.mem_append_left _
              (mem_markerEdges.mpr (.inr (.inl ⟨last, rfl, rfl⟩))), rfl⟩
      · obtain ⟨edge, listed, target⟩ := @ih (some marked) (fun none => by cases none) later
        exact ⟨edge, List.mem_append_right _ listed, target⟩

/-- Only requested items of the batch before it and other markers hold a marker up. -/
theorem IsOrderly.source_of_marker (orderly : inventory.IsOrderly)
    (adjacent : inventory.constraintGraph.Adjacent item (.marker ordinal)) :
    item.isMarker = true ∨ ∃ previous, (previous, ordinal) ∈ inventory.batches.successions ∧
      item ∈ inventory.batches.entriesOf previous ∧ item ∈ inventory.index := by
  rw [constraintGraph_eq, Graph.adjacent_connectAll] at adjacent
  rcases adjacent with related | ⟨edge, listed, source, target⟩
  · cases (orderly.apart.relations _ _ related).2
  · obtain ⟨_, previous, marked, succession, _, edgeOf⟩ := exists_markerEdges_of_mem_markerEdgesAll
      orderly.ascending.pairwise_successions (by simp) listed
    rcases mem_markerEdges.mp edgeOf with
      ⟨entry, requested, indexed, rfl⟩ | ⟨_, _, rfl⟩ | ⟨held, _, heldBack, rfl⟩
    · cases target
      exact .inr ⟨previous, succession, source ▸ requested, source ▸ indexed⟩
    · exact .inl (source ▸ rfl)
    · rw [show held = .marker ordinal from target] at heldBack
      cases heldBack

/-! ## Places that do not matter -/

/-- The places of the markers make no difference. The first marker waits for something, and a marker
stands behind all finalizers of what is requested in the batch before its own. -/
structure PlacesMarkers (inventory : Inventory) : Prop where
  first : ∀ succession ∈ inventory.batches.successions.head?,
    ∃ entry ∈ inventory.batches.entriesOf succession.1, entry ∈ inventory.index
  behind : ∀ succession ∈ inventory.batches.successions,
    ∀ entry ∈ inventory.batches.entriesOf succession.1, entry ∈ inventory.index →
      ∀ finalizer ∈ (inventory.relations entry).finalizers,
        ¬ [.marker succession.2, finalizer].Sublist inventory.index.items

/-- All markers of the index belong to batches that have one. -/
def MarksBatches (inventory : Inventory) : Prop :=
  ∀ ordinal, WorkItem.marker ordinal ∈ inventory.index → ordinal ∈ inventory.markedOrdinals

theorem IsOrderly.reaches_of_lt (orderly : inventory.IsOrderly)
    (member : earlier ∈ inventory.markedOrdinals) (present : later ∈ inventory.markedOrdinals)
    (order : earlier < later) :
    inventory.constraintGraph.Reaches (.marker earlier) (.marker later) :=
  (markerChain_of_lt orderly.ascending (fun _ => adjacent_of_mem_batchEdges) member present
    order).reaches

section

variable {lineup : Lineup} (orderly : inventory.IsOrderly) (marked : inventory.MarksBatches)
  (valid : lineup.Valid inventory.constraintGraph)
  (offered : item ∈ lineup.ready ∨ item ∈ lineup.urgent)

include orderly marked valid offered

/-- No item releases two markers at once. -/
theorem IsOrderly.not_released_of_lt (order : earlier < later)
    (first : .marker earlier ∈ lineup.released inventory.constraintGraph inventory.isUrgent item) :
    .marker later ∉ lineup.released inventory.constraintGraph inventory.isUrgent item := by
  intro second
  have placed := valid.place inventory.isUrgent offered
  have unplaced := ((placed.offered _).mp (.inr (List.mem_append_right _ first))).2.1
  obtain ⟨listed, _, _, _⟩ := Lineup.mem_released.mp first
  obtain ⟨present, _, released, _⟩ := Lineup.mem_released.mp second
  rw [vertices_constraintGraph] at listed present
  have waits := orderly.reaches_of_lt (marked earlier listed) (marked later present) order
  rw [Graph.isReleased_iff] at released
  cases waits with
  | edge adjacent => exact unplaced (released _ adjacent)
  | trans reaches adjacent =>
      obtain ⟨front, back, split⟩ := List.append_of_mem (released _ adjacent)
      have before := placed.respects.mem_of_reaches reaches front back split
      refine unplaced ?_
      rw [show (lineup.place _ _ item).placed = front ++ _ :: back from split]
      exact List.mem_append_left _ before

/-- What is released along with a marker is none, and stands in front of it. -/
theorem PlacesMarkers.released (places : inventory.PlacesMarkers)
    (idle : item.isMarker = true → inventory.relations item = {}) {other : WorkItem}
    (first : .marker ordinal ∈ lineup.released inventory.constraintGraph inventory.isUrgent item)
    (second : other ∈ lineup.released inventory.constraintGraph inventory.isUrgent item)
    (different : other ≠ .marker ordinal) :
    other.isPublic = true ∧ ¬ [.marker ordinal, other].Sublist inventory.index.items := by
  have unmarked : other.isPublic = true := by
    cases other with
    | task name => rfl
    | delegated build name => rfl
    | marker marker =>
        rcases Fin.lt_or_lt_of_ne fun same => different (congrArg WorkItem.marker same) with
          before | behind
        · exact absurd first (orderly.not_released_of_lt marked valid offered before second)
        · exact absurd second (orderly.not_released_of_lt marked valid offered behind first)
  refine ⟨unmarked, ?_⟩
  obtain ⟨_, adjacent, _, _⟩ := Lineup.mem_released.mp first
  obtain ⟨_, _, _, urgent⟩ := Lineup.mem_released.mp second
  have finalizes : other ∈ (inventory.relations item).finalizers := by
    simp only [isUrgent, Bool.or_eq_true, decide_eq_true_eq] at urgent
    refine urgent.resolve_left fun marker => ?_
    obtain ⟨_, _, rfl⟩ := List.mem_map.mp marker
    cases unmarked
  rcases orderly.source_of_marker adjacent with marker | ⟨previous, succession, requested, indexed⟩
  · rw [idle marker] at finalizes
    cases finalizes
  · exact places.behind _ succession item requested indexed other finalizes

end

theorem exists_marker_of_not_isPublic (private' : item.isPublic = false) :
    ∃ ordinal, item = .marker ordinal := by
  cases item with
  | task name => cases private'
  | delegated build name => cases private'
  | marker ordinal => exact ⟨ordinal, rfl⟩

theorem Resembles.settles (alike : left.Resembles WorkItem.isPublic right)
    (orderly : left.IsOrderly) (marked : left.MarksBatches) (distinct : left.index.items.Nodup) (places : left.PlacesMarkers)
    (last : right.index.items.Pairwise fun before behind =>
      before.isPublic = false → behind.isPublic = false) :
    Lineup.Settles WorkItem.isPublic left.constraintGraph right.constraintGraph left.isUrgent
      right.isUrgent := by
  have urgent : ∀ ordinal, .marker ordinal ∈ left.index →
      ∀ item, left.isUrgent item (.marker ordinal) = true := by
    intro ordinal listed item
    simp [isUrgent, marked ordinal listed]
  refine ⟨alike.constraintGraph, fun item indexed other present => ?_, fun item indexed free => ?_,
    fun item _ other present unpressed => ?_, fun lineup valid item indexed unplaced free => ?_⟩
  · rw [vertices_constraintGraph] at indexed present
    exact alike.isUrgent_eq indexed present
  · rw [vertices_constraintGraph] at indexed
    by_contra special
    obtain ⟨ordinal, rfl⟩ := exists_marker_of_not_isPublic (Bool.eq_false_iff.mpr special)
    obtain ⟨previous, succession⟩ := exists_succession (marked ordinal indexed)
    obtain ⟨edge, listed, target⟩ := exists_source_of_marker left.effectiveGroups
      (fun _ => places.first) (List.mem_map_of_mem succession)
    have waits := adjacent_of_mem_batchEdges listed
    rw [target] at waits
    cases Graph.isReleased_iff.mp free _ waits
  · rw [vertices_constraintGraph] at present
    by_contra special
    obtain ⟨ordinal, rfl⟩ := exists_marker_of_not_isPublic (Bool.eq_false_iff.mpr special)
    rw [urgent ordinal present item] at unpressed
    cases unpressed
  · have offered := (valid.offered item).mpr ⟨indexed, unplaced, free⟩
    rw [vertices_constraintGraph] at indexed
    have idle : item.isMarker = true → left.relations item = {} := fun marker =>
      (alike.idle item indexed (by simp [WorkItem.isPublic, marker])).2
    have same : ∀ other, other ∈ lineup.released right.constraintGraph right.isUrgent item ↔
        other ∈ lineup.released left.constraintGraph left.isUrgent item := by
      intro other
      have graphs := alike.constraintGraph
      rw [Lineup.mem_released, Lineup.mem_released, graphs.vertices.mem_iff,
        Graph.adjacent_congr graphs.edges, Graph.isReleased_congr graphs.edges]
      refine and_congr_right fun present => ?_
      rw [vertices_constraintGraph] at present
      rw [alike.isUrgent_eq indexed present]
    have apart : ∀ {before behind : WorkItem}, [before, behind].Nodup →
        before.isPublic = false →
        before ∈ lineup.released left.constraintGraph left.isUrgent item →
        behind ∈ lineup.released left.constraintGraph left.isUrgent item →
        behind.isPublic = true ∧ ¬ [before, behind].Sublist left.index.items := by
      intro before behind different special first second
      obtain ⟨ordinal, rfl⟩ := exists_marker_of_not_isPublic special
      refine places.released orderly marked valid offered idle first second fun same => ?_
      simp [same] at different
    refine (Lineup.released_eq_filter same).trans ?_
    refine Eq.trans ?_ (Lineup.released_eq_filter fun _ => Iff.rfl).symm
    rw [vertices_constraintGraph, vertices_constraintGraph]
    refine filter_eq_of_last alike.index alike.order ?_ ?_
    · refine List.pairwise_iff_forall_sublist.mpr fun sub special first => ?_
      refine decide_eq_false fun second => ?_
      exact (apart (distinct.sublist sub) special (of_decide_eq_true first) second).2 sub
    · refine List.pairwise_iff_forall_sublist.mpr fun sub special first => ?_
      refine decide_eq_false fun second => ?_
      have unmarked := (apart ((alike.index.nodup_iff.mpr distinct).sublist sub) special
        (of_decide_eq_true first) second).1
      rw [List.pairwise_iff_forall_sublist.mp last sub special] at unmarked
      cases unmarked

/-- Where the places of the markers make no difference, the schedule is the one with the markers
behind all other items. -/
theorem Resembles.toOption_schedule (alike : left.Resembles WorkItem.isPublic right)
    (orderly : left.IsOrderly) (marked : left.MarksBatches) (distinct : left.index.items.Nodup)
    (places : left.PlacesMarkers)
    (last : right.index.items.Pairwise fun before behind =>
      before.isPublic = false → behind.isPublic = false)
    (filtered : right.filtered = left.filtered) :
    right.schedule.toOption = left.schedule.toOption := by
  have exist := alike.exists_schedule_iff orderly.marked distinct
  cases found : left.schedule with
  | error report =>
      rw [found] at exist
      cases other : right.schedule with
      | error reportToo => rfl
      | ok schedule =>
          obtain ⟨_, impossible⟩ := exist.mp ⟨schedule, other⟩
          cases impossible
  | ok schedule =>
      have acyclic := (Inventory.exists_schedule_iff orderly.marked distinct).mp ⟨schedule, found⟩
      have settles := alike.settles orderly marked distinct places last
      have ordered : right.linearOrder = left.linearOrder := by
        rw [linearOrder_eq_linearize acyclic, linearOrder_eq_linearize
          ((Graph.acyclic_congr alike.constraintGraph.edges).mpr acyclic), settles.linearize_eq]
      rw [alike.schedule_eq ordered, filtered, map_filtered_schedule, found]

end Inventory

end TaskPlanner
