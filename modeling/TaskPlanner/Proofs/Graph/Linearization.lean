import Mathlib.Data.List.Perm.Subperm
import TaskPlanner.Proofs.Counting
import TaskPlanner.Proofs.Graph.Reachability
import TaskPlanner.Schedule.Ordering

/-! A successful linearization is a linear extension of the graph: it lists every vertex
once, behind everything the vertex waits for. An acyclic graph is always linearized. -/

set_option autoImplicit false

namespace TaskPlanner

namespace Graph

variable {graph : Graph} {order placed : List WorkItem} {before item source target : WorkItem}

/-- Every item of the order stands behind everything it waits for. -/
def Respects (graph : Graph) (order : List WorkItem) : Prop :=
  ∀ earlier item later, order = earlier ++ item :: later →
    ∀ before, graph.Adjacent before item → before ∈ earlier

theorem Respects.mem_of_adjacent (respects : graph.Respects order) (member : item ∈ order)
    (adjacent : graph.Adjacent before item) : before ∈ order := by
  obtain ⟨earlier, later, split⟩ := List.append_of_mem member
  rw [split]
  exact List.mem_append_left _ (respects earlier item later split before adjacent)

/-- What holds of every item and the items in front of it holds in a longer order, if it holds of
the last item. -/
theorem forall_split_concat {property : List WorkItem → WorkItem → Prop}
    (all : ∀ earlier item later, order = earlier ++ item :: later → property earlier item)
    (last : property order item) :
    ∀ earlier other later, order ++ [item] = earlier ++ other :: later →
      property earlier other := by
  intro earlier other later split
  rcases List.eq_nil_or_concat later with rfl | ⟨initial, final, rfl⟩
  · obtain ⟨rfl, same⟩ := List.append_inj' split rfl
    obtain rfl : item = other := by simpa using same
    exact last
  · rw [List.concat_eq_append, ← List.cons_append, ← List.append_assoc] at split
    obtain ⟨rfl, _⟩ := List.append_inj' split rfl
    exact all earlier other initial rfl

theorem Respects.concat (respects : graph.Respects order)
    (released : ∀ before, graph.Adjacent before item → before ∈ order) :
    graph.Respects (order ++ [item]) :=
  forall_split_concat respects released

/-- What reaches a listed item stands in front of it. -/
theorem Respects.mem_of_reaches (respects : graph.Respects order)
    (reaches : graph.Reaches source target) :
    ∀ earlier later, order = earlier ++ target :: later → source ∈ earlier := by
  induction reaches with
  | edge adjacent => exact fun earlier later split => respects earlier _ later split _ adjacent
  | trans _ adjacent ih =>
      intro earlier later split
      have middleEarlier := respects earlier _ later split _ adjacent
      obtain ⟨first, between, rfl⟩ := List.append_of_mem middleEarlier
      rw [List.append_assoc, List.cons_append] at split
      exact List.mem_append_left _ (ih first _ split)

/-- A graph with an order that respects it and lists every target has no cycle. -/
theorem Respects.acyclic (respects : graph.Respects order) (distinct : order.Nodup)
    (targets : ∀ source target, graph.Adjacent source target → target ∈ order) :
    graph.Acyclic := by
  intro item reaches
  have member : item ∈ order := by
    cases reaches with
    | edge adjacent => exact targets _ _ adjacent
    | trans _ adjacent => exact targets _ _ adjacent
  obtain ⟨earlier, later, rfl⟩ := List.append_of_mem member
  have before := respects.mem_of_reaches reaches earlier later rfl
  have apart := (List.nodup_append.mp distinct).2.2
  exact apart item before item List.mem_cons_self rfl

/-- Of the items of a list, one waits for no other of them. -/
theorem Acyclic.exists_first (acyclic : graph.Acyclic) {items : List WorkItem}
    (nonempty : items ≠ []) :
    ∃ first ∈ items, ∀ other ∈ items, ¬ graph.Reaches other first :=
  Counting.exists_first (fun item _ => acyclic item) (fun _ _ _ => Reaches.append) nonempty

theorem isReleased_iff :
    graph.isReleased placed item = true ↔
      ∀ before, graph.Adjacent before item → before ∈ placed := by
  unfold isReleased
  rw [List.all_eq_true]
  constructor
  · intro all before adjacent
    obtain ⟨entry, member, rfl⟩ := List.mem_map.mp (mem_predecessors.mpr adjacent)
    exact of_decide_eq_true (all entry member)
  · intro all entry member
    exact decide_eq_true (all entry.1 (mem_predecessors.mp (List.mem_map_of_mem member)))

end Graph

namespace Lineup

variable {graph : Graph} {lineup : Lineup}

/-- What the placing of items preserves. The released items that are not placed are
exactly those on offer, so an item is never overlooked. -/
structure Valid (graph : Graph) (lineup : Lineup) : Prop where
  distinct : lineup.placed.Nodup
  vertices : ∀ item ∈ lineup.placed, item ∈ graph.vertices
  respects : graph.Respects lineup.placed
  offered : ∀ item, item ∈ lineup.ready ∨ item ∈ lineup.urgent ↔
    item ∈ graph.vertices ∧ item ∉ lineup.placed ∧ graph.isReleased lineup.placed item = true

theorem valid_initial (graph : Graph) : (Lineup.initial graph).Valid graph where
  distinct := List.nodup_nil
  vertices := by simp [initial]
  respects := by
    intro earlier item later split
    simp [initial] at split
  offered := by simp [initial]

theorem mem_of_next? {item : WorkItem} (next : lineup.next? graph = some item) :
    item ∈ lineup.ready ∨ item ∈ lineup.urgent := by
  unfold next? at next
  rcases Option.or_eq_some_iff.mp next with urgent | ⟨_, ready⟩
  · exact .inr (List.mem_of_head? urgent)
  · exact .inl (by simpa using List.find?_some ready)

theorem not_offered_of_next?_eq_none (valid : lineup.Valid graph)
    (stopped : lineup.next? graph = none) (item : WorkItem) :
    ¬ (item ∈ lineup.ready ∨ item ∈ lineup.urgent) := by
  intro offered
  obtain ⟨noUrgent, noReady⟩ := Option.or_eq_none_iff.mp stopped
  have vertex := ((valid.offered item).mp offered).1
  rcases offered with ready | urgent
  · exact List.find?_eq_none.mp noReady item vertex (decide_eq_true ready)
  · rw [List.head?_eq_none_iff.mp noUrgent] at urgent
    cases urgent

/-- An item on offer can be placed. -/
theorem Valid.place (valid : lineup.Valid graph)
    (isUrgent : WorkItem → WorkItem → Bool) {item : WorkItem}
    (offered : item ∈ lineup.ready ∨ item ∈ lineup.urgent) :
    (lineup.place graph isUrgent item).Valid graph := by
  obtain ⟨vertex, unplaced, released⟩ := (valid.offered item).mp offered
  have before := Graph.isReleased_iff.mp released
  refine ⟨?_, ?_, valid.respects.concat before, ?_⟩
  · show (lineup.placed ++ [item]).Nodup
    refine List.nodup_append.mpr ⟨valid.distinct, by simp, ?_⟩
    intro placed member last singleton same
    exact unplaced (by rwa [← List.mem_singleton.mp singleton, ← same])
  · intro other member
    rcases List.mem_append.mp member with old | new
    · exact valid.vertices other old
    · rwa [List.mem_singleton.mp new]
  · intro other
    have split : (other ∈ (lineup.place graph isUrgent item).ready ∨
        other ∈ (lineup.place graph isUrgent item).urgent) ↔
        ((other ∈ lineup.ready ∨ other ∈ lineup.urgent) ∧ other ≠ item) ∨
          (other ∈ graph.vertices ∧ graph.Adjacent item other ∧
            graph.isReleased (lineup.placed ++ [item]) other = true) := by
      simp only [Lineup.place, List.mem_append, List.mem_filter, decide_eq_true_eq,
        Bool.and_eq_true, Graph.mem_successors, Bool.not_eq_true']
      cases isUrgent item other <;> grind
    rw [split]
    show _ ↔ other ∈ graph.vertices ∧ other ∉ lineup.placed ++ [item] ∧
      graph.isReleased (lineup.placed ++ [item]) other = true
    constructor
    · rintro (⟨old, different⟩ | ⟨otherVertex, adjacent, otherReleased⟩)
      · obtain ⟨otherVertex, otherUnplaced, otherReleased⟩ := (valid.offered other).mp old
        refine ⟨otherVertex, by simp [otherUnplaced, different], Graph.isReleased_iff.mpr ?_⟩
        intro earlier adjacent
        exact List.mem_append_left _ (Graph.isReleased_iff.mp otherReleased earlier adjacent)
      · -- Neither `item` nor anything in front of it waits for `item`.
        have otherUnplaced : other ∉ lineup.placed :=
          fun placed => unplaced (valid.respects.mem_of_adjacent placed adjacent)
        have different : other ≠ item := by
          rintro rfl
          exact unplaced (before other adjacent)
        exact ⟨otherVertex, by simp [otherUnplaced, different], otherReleased⟩
    · rintro ⟨otherVertex, otherUnplaced, otherReleased⟩
      obtain ⟨notPlaced, different⟩ : other ∉ lineup.placed ∧ other ≠ item := by
        simpa [not_or] using otherUnplaced
      by_cases adjacent : graph.Adjacent item other
      · exact .inr ⟨otherVertex, adjacent, otherReleased⟩
      · refine .inl ⟨(valid.offered other).mpr ⟨otherVertex, notPlaced, ?_⟩, different⟩
        refine Graph.isReleased_iff.mpr fun earlier waits => ?_
        rcases List.mem_append.mp (Graph.isReleased_iff.mp otherReleased earlier waits) with
          old | new
        · exact old
        · exact absurd (List.mem_singleton.mp new ▸ waits) adjacent

theorem Valid.run (valid : lineup.Valid graph)
    (isUrgent : WorkItem → WorkItem → Bool) (steps : Nat) :
    (lineup.run graph isUrgent steps).Valid graph := by
  induction steps generalizing lineup with
  | zero => exact valid
  | succ steps ih =>
      unfold Lineup.run
      split
      · exact valid
      next item next => exact ih (valid.place isUrgent (mem_of_next? next))

/-- Unless nothing is on offer any more, every step places an item. -/
theorem length_placed_run (graph : Graph) (isUrgent : WorkItem → WorkItem → Bool) (steps : Nat)
    (lineup : Lineup) :
    (lineup.run graph isUrgent steps).placed.length = lineup.placed.length + steps ∨
      (lineup.run graph isUrgent steps).next? graph = none := by
  induction steps generalizing lineup with
  | zero => exact .inl rfl
  | succ steps ih =>
      unfold Lineup.run
      split
      next stopped => exact .inr stopped
      next item _ =>
        rcases ih (lineup.place graph isUrgent item) with placed | stopped
        · left
          rw [placed]
          simp only [Lineup.place, List.length_append, List.length_cons, List.length_nil]
          omega
        · exact .inr stopped

/-- In an acyclic graph nothing is left when nothing is on offer. -/
theorem Valid.mem_placed (valid : lineup.Valid graph) (acyclic : graph.Acyclic)
    (sources : ∀ source target, graph.Adjacent source target → source ∈ graph.vertices)
    (stopped : lineup.next? graph = none) :
    ∀ item ∈ graph.vertices, item ∈ lineup.placed := by
  intro item vertex
  refine Decidable.byContradiction fun unplaced => ?_
  have left : item ∈ graph.vertices.filter (· ∉ lineup.placed) := by simp [vertex, unplaced]
  obtain ⟨first, member, free⟩ := acyclic.exists_first (List.ne_nil_of_mem left)
  obtain ⟨firstVertex, firstUnplaced⟩ : first ∈ graph.vertices ∧ first ∉ lineup.placed := by
    simpa using member
  have released : graph.isReleased lineup.placed first = true := by
    refine Graph.isReleased_iff.mpr fun before adjacent => ?_
    refine Decidable.byContradiction fun waiting => ?_
    exact free before (by simp [sources before first adjacent, waiting]) (.edge adjacent)
  exact not_offered_of_next?_eq_none valid stopped first
    ((valid.offered first).mpr ⟨firstVertex, firstUnplaced, released⟩)

end Lineup

namespace Graph

variable {graph : Graph}

/-- A successful linearization lists the vertices, each behind what it waits for. -/
theorem linearize_sound {isUrgent : WorkItem → WorkItem → Bool} {order : List WorkItem}
    (ordered : graph.linearize isUrgent = .ok order) :
    order.Nodup ∧ order.Perm graph.vertices ∧ graph.Respects order := by
  have valid := (Lineup.valid_initial graph).run isUrgent graph.vertices.length
  unfold linearize at ordered
  dsimp only at ordered
  split at ordered
  next complete =>
    cases ordered
    have sub : _ ⊆ graph.vertices := fun item member => valid.vertices item member
    exact ⟨valid.distinct,
      (List.subperm_of_subset valid.distinct sub).perm_of_length_le (Nat.le_of_eq complete.symm),
      valid.respects⟩
  next => cases ordered

/-- An acyclic graph is linearized. -/
theorem Acyclic.exists_linearize (acyclic : graph.Acyclic) (distinct : graph.vertices.Nodup)
    (sources : ∀ source target, graph.Adjacent source target → source ∈ graph.vertices)
    (isUrgent : WorkItem → WorkItem → Bool) :
    ∃ order, graph.linearize isUrgent = .ok order := by
  have valid := (Lineup.valid_initial graph).run isUrgent graph.vertices.length
  have complete : ((Lineup.initial graph).run graph isUrgent graph.vertices.length).placed.length =
      graph.vertices.length := by
    rcases Lineup.length_placed_run graph isUrgent graph.vertices.length (.initial graph) with
      placed | stopped
    · rw [placed]
      exact Nat.zero_add _
    · have all := valid.mem_placed acyclic sources stopped
      exact Nat.le_antisymm
        (List.subperm_of_subset valid.distinct fun item => valid.vertices item).length_le
        (List.subperm_of_subset distinct all).length_le
  exact ⟨_, if_pos complete⟩

end Graph

end TaskPlanner
