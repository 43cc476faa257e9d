import Mathlib.Data.List.Induction
import TaskPlanner.Proofs.Graph.Linearization

/-! What is urgent comes next. At every point of a linearization the urgent items stand, in their
order, at the front of what is still to be placed. -/

set_option autoImplicit false

namespace TaskPlanner.Lineup

variable {graph : Graph} {isUrgent : WorkItem → WorkItem → Bool} {order left : List WorkItem}
  {lineup : Lineup} {item : WorkItem}

/-- A point of a linearization that ends in `order`. -/
structure LeadsTo (graph : Graph) (isUrgent : WorkItem → WorkItem → Bool) (order : List WorkItem)
    (lineup : Lineup) : Prop where
  valid : lineup.Valid graph
  distinct : lineup.urgent.Nodup
  ends : ∃ steps, (lineup.run graph isUrgent steps).placed = order

theorem leadsTo_initial (ordered : graph.linearize isUrgent = .ok order) :
    (Lineup.initial graph).LeadsTo graph isUrgent order := by
  refine ⟨valid_initial graph, List.nodup_nil, graph.vertices.length, ?_⟩
  unfold Graph.linearize at ordered
  dsimp only at ordered
  split at ordered
  · cases ordered
    rfl
  · cases ordered

theorem isPrefix_run (lineup : Lineup) (steps : Nat) :
    lineup.placed <+: (lineup.run graph isUrgent steps).placed := by
  induction steps generalizing lineup with
  | zero => exact List.prefix_rfl
  | succ steps ih =>
      unfold run
      split
      · exact List.prefix_rfl
      next item _ => exact (List.prefix_append _ _).trans (ih (lineup.place graph isUrgent item))

/-- What becomes urgent when `item` is placed. -/
def released (graph : Graph) (isUrgent : WorkItem → WorkItem → Bool) (lineup : Lineup)
    (item : WorkItem) : List WorkItem :=
  (graph.vertices.filter fun other => decide (other ∈ graph.successors item) &&
    graph.isReleased (lineup.placed ++ [item]) other).filter (isUrgent item)

theorem urgent_place (graph : Graph) (isUrgent : WorkItem → WorkItem → Bool) (lineup : Lineup)
    (item : WorkItem) : (lineup.place graph isUrgent item).urgent =
      lineup.urgent.filter (· ≠ item) ++ lineup.released graph isUrgent item :=
  rfl

theorem mem_released {other : WorkItem} :
    other ∈ lineup.released graph isUrgent item ↔ other ∈ graph.vertices ∧
      graph.Adjacent item other ∧ graph.isReleased (lineup.placed ++ [item]) other = true ∧
      isUrgent item other = true := by
  simp only [released, List.mem_filter, Bool.and_eq_true, decide_eq_true_eq, Graph.mem_successors,
    and_assoc]

/-- What an item releases was not released before. -/
theorem nodup_urgent_place (vertices : graph.vertices.Nodup) (valid : lineup.Valid graph)
    (distinct : lineup.urgent.Nodup) (unplaced : item ∉ lineup.placed) :
    (lineup.place graph isUrgent item).urgent.Nodup := by
  refine List.nodup_append.mpr ⟨distinct.filter _, (vertices.filter _).filter _, ?_⟩
  intro old member fresh added same
  obtain ⟨urgent, _⟩ := List.mem_filter.mp member
  obtain ⟨_, adjacent, _⟩ := mem_released.mp added
  obtain ⟨_, _, before⟩ := (valid.offered old).mp (.inr urgent)
  exact unplaced (Graph.isReleased_iff.mp before item (same ▸ adjacent))

/-- What is placed next is the next item of the order. -/
theorem LeadsTo.next (leads : lineup.LeadsTo graph isUrgent order) (vertices : graph.vertices.Nodup)
    (split : order = lineup.placed ++ item :: left) :
    lineup.next? graph = some item ∧
      (lineup.place graph isUrgent item).LeadsTo graph isUrgent order := by
  obtain ⟨steps, ends⟩ := leads.ends
  have unended : lineup.placed ≠ order := by
    intro same
    rw [← same] at split
    exact absurd (List.append_cancel_left ((List.append_nil _).trans split)) (by simp)
  cases steps with
  | zero => exact absurd ends unended
  | succ steps =>
      unfold run at ends
      split at ends
      · exact absurd ends unended
      next first next =>
        obtain ⟨later, extended⟩ := @isPrefix_run graph isUrgent (lineup.place graph isUrgent first)
          steps
        rw [ends, split] at extended
        have placed : lineup.placed ++ ([first] ++ later) = lineup.placed ++ item :: left := by
          rw [← List.append_assoc]
          exact extended
        obtain ⟨rfl, _⟩ := List.cons.inj (List.append_cancel_left placed)
        have offered := mem_of_next? next
        have unplaced := ((leads.valid.offered first).mp offered).2.1
        exact ⟨next, leads.valid.place isUrgent offered,
          nodup_urgent_place vertices leads.valid leads.distinct unplaced, steps, ends⟩

/-- What the start has and every placement keeps, each point of the order has. -/
theorem exists_leadsTo {motive : Lineup → Prop} {earlier : List WorkItem}
    (ordered : graph.linearize isUrgent = .ok order) (vertices : graph.vertices.Nodup)
    (start : motive (.initial graph))
    (place : ∀ lineup item left, lineup.LeadsTo graph isUrgent order →
      order = lineup.placed ++ item :: left → motive lineup →
        motive (lineup.place graph isUrgent item))
    (split : order = earlier ++ left) :
    ∃ lineup : Lineup, lineup.placed = earlier ∧ lineup.LeadsTo graph isUrgent order ∧
      motive lineup := by
  induction earlier using List.reverseRecOn generalizing left with
  | nil => exact ⟨.initial graph, rfl, leadsTo_initial ordered, start⟩
  | append_singleton earlier item ih =>
      rw [List.append_assoc, List.singleton_append] at split
      obtain ⟨lineup, rfl, leads, holds⟩ := ih split
      exact ⟨lineup.place graph isUrgent item, rfl, (leads.next vertices split).2,
        place lineup item left leads split holds⟩

/-- The urgent items are the next ones of the order. -/
theorem LeadsTo.isPrefix_urgent (leads : lineup.LeadsTo graph isUrgent order)
    (vertices : graph.vertices.Nodup) (complete : ∀ vertex ∈ graph.vertices, vertex ∈ order)
    (split : order = lineup.placed ++ left) : lineup.urgent <+: left := by
  induction left generalizing lineup with
  | nil =>
      refine List.prefix_nil.mpr (List.eq_nil_iff_forall_not_mem.mpr fun item urgent => ?_)
      obtain ⟨vertex, unplaced, _⟩ := (leads.valid.offered item).mp (.inr urgent)
      rw [List.append_nil] at split
      exact unplaced (split ▸ complete item vertex)
  | cons item left ih =>
      obtain ⟨next, placed⟩ := leads.next vertices split
      have rest : order = (lineup.place graph isUrgent item).placed ++ left := by
        rw [split]
        exact List.append_cons ..
      cases urgent : lineup.urgent with
      | nil => exact List.nil_prefix
      | cons head tail =>
          have same : item = head := by
            simpa [next?, urgent] using next.symm
          subst same
          have fresh : item ∉ tail := (List.nodup_cons.mp (urgent ▸ leads.distinct)).1
          have kept : (item :: tail).filter (· ≠ item) = tail := by
            rw [List.filter_cons_of_neg (by simp)]
            exact List.filter_eq_self.mpr fun other member =>
              decide_eq_true fun same => fresh (same ▸ member)
          refine List.cons_prefix_cons.mpr ⟨rfl, List.IsPrefix.trans ?_ (ih placed rest)⟩
          rw [urgent_place, urgent, kept]
          exact List.prefix_append _ _

/-- Every urgent item was made urgent by a placed one. -/
def IsCaused (isUrgent : WorkItem → WorkItem → Bool) (lineup : Lineup) : Prop :=
  ∀ item ∈ lineup.urgent, ∃ before ∈ lineup.placed, isUrgent before item = true

theorem IsCaused.place (caused : lineup.IsCaused isUrgent) :
    (lineup.place graph isUrgent item).IsCaused isUrgent := by
  intro other member
  rw [urgent_place, List.mem_append] at member
  cases member with
  | inl old =>
      obtain ⟨before, placed, urgent⟩ := caused other (List.mem_filter.mp old).1
      exact ⟨before, List.mem_append_left _ placed, urgent⟩
  | inr fresh =>
      have urgent := (mem_released.mp fresh).2.2.2
      exact ⟨item, List.mem_append_right _ (List.mem_singleton_self item), urgent⟩

/-- An item that `item` makes urgent, and that waits for nothing behind `item`, follows with only
urgent items in between. -/
theorem exists_between_urgent {earlier : List WorkItem} {other : WorkItem}
    (ordered : graph.linearize isUrgent = .ok order) (vertices : graph.vertices.Nodup)
    (split : order = earlier ++ item :: left) (vertex : other ∈ graph.vertices)
    (adjacent : graph.Adjacent item other) (urgent : isUrgent item other = true)
    (waited : ∀ before, graph.Adjacent before other → before ∈ earlier ++ [item]) :
    ∃ between rest, left = between ++ other :: rest ∧
      ∀ passed ∈ between, ∃ before ∈ earlier ++ [item], isUrgent before passed = true := by
  have start : (Lineup.initial graph).IsCaused isUrgent := by
    simp [IsCaused, initial]
  obtain ⟨lineup, rfl, leads, caused⟩ := exists_leadsTo ordered vertices start
    (fun _ _ _ _ _ caused => caused.place) split
  obtain ⟨_, placed⟩ := leads.next vertices split
  have complete : ∀ vertex ∈ graph.vertices, vertex ∈ order := fun _ =>
    (Graph.linearize_sound ordered).2.1.mem_iff.mpr
  obtain ⟨behind, upcoming⟩ := placed.isPrefix_urgent vertices complete
    (split.trans (List.append_cons ..))
  -- `other` joins the urgent items with `item`, and those in front of it there are passed first.
  have released : other ∈ lineup.released graph isUrgent item :=
    mem_released.mpr ⟨vertex, adjacent, Graph.isReleased_iff.mpr waited, urgent⟩
  obtain ⟨between, tail, shape⟩ : ∃ between tail,
      (lineup.place graph isUrgent item).urgent = between ++ other :: tail := by
    apply List.append_of_mem
    exact List.mem_append_right _ released
  refine ⟨between, tail ++ behind, by simp [← upcoming, shape], fun passed member => ?_⟩
  exact caused.place passed (shape ▸ List.mem_append_left _ member)

/-! ## Orders in which nothing is urgent -/

theorem find?_ready_eq_some (valid : lineup.Valid graph)
    (split : graph.vertices = lineup.placed ++ item :: left) (ready : item ∈ lineup.ready) :
    graph.vertices.find? (· ∈ lineup.ready) = some item := by
  have passed : lineup.placed.find? (· ∈ lineup.ready) = none := by
    apply List.find?_eq_none.mpr
    intro other placed still
    exact ((valid.offered other).mp (.inl (of_decide_eq_true still))).2.1 placed
  rw [split, List.find?_append, passed, Option.none_or]
  exact List.find?_cons_of_pos (decide_eq_true ready)

/-- If the vertices stand behind what they wait for, they are placed in their order. -/
theorem placed_run_of_respects (respects : graph.Respects graph.vertices)
    (vertices : graph.vertices.Nodup)
    (calm : ∀ source target, graph.Adjacent source target → isUrgent source target = false)
    (valid : lineup.Valid graph) (none : lineup.urgent = [])
    (split : graph.vertices = lineup.placed ++ left) :
    (lineup.run graph isUrgent left.length).placed = graph.vertices := by
  induction left generalizing lineup with
  | nil => simp [run, split]
  | cons item left ih =>
      have unplaced : item ∉ lineup.placed := by
        rw [split] at vertices
        exact fun placed => (List.nodup_append.mp vertices).2.2 item placed item (by simp) rfl
      have ready : item ∈ lineup.ready := by
        have vertex : item ∈ graph.vertices := by simp [split]
        have released := Graph.isReleased_iff.mpr (respects lineup.placed item left split)
        simpa [none] using (valid.offered item).mpr ⟨vertex, unplaced, released⟩
      have next : lineup.next? graph = some item := by
        simp only [next?, none, List.head?_nil, Option.none_or]
        exact find?_ready_eq_some valid split ready
      have calmed : (lineup.place graph isUrgent item).urgent = [] := by
        simp only [urgent_place, none, List.filter_nil, List.nil_append]
        apply List.eq_nil_iff_forall_not_mem.mpr
        intro other released
        obtain ⟨_, adjacent, _, urgent⟩ := mem_released.mp released
        simp [calm item other adjacent] at urgent
      simp only [List.length_cons, run, next]
      exact ih (valid.place isUrgent (.inl ready)) calmed (split.trans (List.append_cons ..))

theorem linearize_of_respects (respects : graph.Respects graph.vertices)
    (vertices : graph.vertices.Nodup)
    (calm : ∀ source target, graph.Adjacent source target → isUrgent source target = false) :
    graph.linearize isUrgent = .ok graph.vertices := by
  have placed := placed_run_of_respects respects vertices calm (valid_initial graph) rfl
    (List.nil_append _).symm
  simp [Graph.linearize, placed]

end TaskPlanner.Lineup
