import Mathlib.Data.List.Induction
import TaskPlanner.Proofs.Graph.Urgency
import TaskPlanner.Proofs.Schedule.Line

/-! Two queues decide about the order: the urgent items while a schedule is made, and the line of
finalizers while it runs. If every finalizer is released by the node that it finalizes, the work in
the line is the work among the urgent items, and the next node of the schedule is first in line. -/

set_option autoImplicit false

namespace TaskPlanner

/-- No finalizer with work to do waits for anything that the schedule puts behind what it
finalizes, and what it finalizes has work to do itself. -/
def Schedule.IsPrompt (schedule : Schedule) : Prop :=
  ∀ earlier target later, schedule.nodes = earlier ++ target :: later →
    ∀ finalizer ∈ schedule.works, target.item ∈ finalizer.finalizes →
      target.isWork = true ∧ ∀ waited ∈ finalizer.predecessors,
        waited.1 ∈ earlier.map (·.item) ++ [target.item]

/-- A part of a list of distinct elements is what is left when the rest is filtered out. -/
theorem filter_eq_of_sublist {α : Type} {kept whole : List α} (sub : kept.Sublist whole)
    (distinct : whole.Nodup) {keeps : α → Bool}
    (exact' : ∀ element ∈ whole, keeps element = true ↔ element ∈ kept) :
    whole.filter keeps = kept := by
  induction sub with
  | slnil => rfl
  | @cons kept whole head sub ih =>
      obtain ⟨absent, distinct⟩ := List.nodup_cons.mp distinct
      have dropped : keeps head = false := by
        rw [← Bool.not_eq_true, exact' head List.mem_cons_self]
        exact fun present => absent (sub.subset present)
      rw [List.filter_cons_of_neg (by simp [dropped])]
      exact ih distinct fun element member => exact' element (List.mem_cons_of_mem _ member)
  | @cons_cons kept whole head sub ih =>
      obtain ⟨absent, distinct⟩ := List.nodup_cons.mp distinct
      rw [List.filter_cons_of_pos ((exact' head List.mem_cons_self).mpr List.mem_cons_self)]
      refine congrArg _ (ih distinct fun element member => ?_)
      rw [exact' element (List.mem_cons_of_mem _ member), List.mem_cons]
      exact or_iff_right fun same => absent (same ▸ member)

/-- What stands in front of the first kept element is not kept, so it may leave. -/
theorem filter_tail_dropWhile {α : Type} [DecidableEq α] {line : List α} {first : α}
    (keeps later : α → Bool) (weaker : ∀ element, later element = true → keeps element = true)
    (leaves : later first = false) (front : line.filter keeps = [] ∨
      keeps first = true ∧ (line.filter keeps).head? = some first) :
    (line.dropWhile (· ≠ first)).tail.filter later = line.filter later := by
  rcases front with none | ⟨kept, head⟩
  · have all : ∀ part : List α, part.Sublist line → part.filter later = [] := by
      intro part sub
      refine List.filter_eq_nil_iff.mpr fun element member still => ?_
      exact List.filter_eq_nil_iff.mp none element (sub.subset member) (weaker element still)
    rw [all line (List.Sublist.refl _),
      all _ ((List.tail_sublist _).trans (List.dropWhile_sublist _))]
  · obtain ⟨rest, filtered⟩ := List.head?_eq_some_iff.mp head
    obtain ⟨before, behind, rfl, dropped, _, _⟩ := List.filter_eq_cons_iff.mp filtered
    have absent : ∀ element ∈ before, element ≠ first := by
      rintro element member rfl
      exact dropped element member kept
    have cut : (before ++ first :: behind).dropWhile (· ≠ first) = first :: behind := by
      rw [List.dropWhile_append_of_pos fun element member => decide_eq_true (absent element member)]
      simp
    have gone : before.filter later = [] :=
      List.filter_eq_nil_iff.mpr fun element member still =>
        dropped element member (weaker element still)
    rw [cut, List.tail_cons, List.filter_append, gone, List.filter_cons_of_neg (by simp [leaves]),
      List.nil_append]

namespace Schedule

theorem mem_advance {schedule : Schedule} {line : List ScheduledNode} {node other : ScheduledNode}
    (within : line ⊆ schedule.nodes) (member : other ∈ schedule.advance line node) :
    other ∈ schedule.nodes := by
  rcases List.mem_append.mp member with behind | joined
  · exact within ((List.dropWhile_sublist _).subset (List.mem_of_mem_tail behind))
  · exact (List.mem_filter.mp joined).1

theorem line_subset (schedule : Schedule) (ran : List ScheduledNode) :
    schedule.line ran ⊆ schedule.nodes := by
  induction ran using List.reverseRecOn with
  | nil => exact List.nil_subset _
  | append_singleton ran node ih =>
      intro other member
      rw [line_concat] at member
      exact mem_advance ih member

end Schedule

namespace Inventory

/-- The node of `item` in the schedule. -/
def nodeFor (inventory : Inventory) (item : WorkItem) : ScheduledNode :=
  inventory.scheduledNode inventory.constraintGraph item

@[simp] theorem item_nodeFor (inventory : Inventory) (item : WorkItem) :
    (inventory.nodeFor item).item = item :=
  rfl

/-- The nodes with work to do among those of `items`. -/
def worksOf (inventory : Inventory) (items : List WorkItem) : List ScheduledNode :=
  (items.map inventory.nodeFor).filter (·.isWork)

theorem worksOf_append (inventory : Inventory) (front back : List WorkItem) :
    inventory.worksOf (front ++ back) = inventory.worksOf front ++ inventory.worksOf back := by
  simp only [worksOf, List.map_append, List.filter_append]

/-- Whether a node has work to do and is not among the placed items. -/
def isAhead (placed : List WorkItem) (node : ScheduledNode) : Bool :=
  node.isWork && decide (node.item ∉ placed)

theorem isAhead_concat (placed : List WorkItem) (item : WorkItem) (node : ScheduledNode) :
    isAhead (placed ++ [item]) node = (decide (node.item ≠ item) && isAhead placed node) := by
  rw [Bool.eq_iff_iff]
  simp only [isAhead, List.mem_append, List.mem_singleton, not_or, Bool.and_eq_true,
    decide_eq_true_eq]
  exact ⟨fun ⟨work, old, new⟩ => ⟨new, work, old⟩, fun ⟨new, work, old⟩ => ⟨work, old, new⟩⟩

section

variable {inventory : Inventory} {schedule : Schedule} {order left : List WorkItem}
  {lineup : Lineup} {item : WorkItem}
  (scheduled : inventory.schedule = .ok schedule) (ordered : inventory.linearOrder = .ok order)
  (nodes : schedule.nodes = order.map inventory.nodeFor) (prompt : schedule.IsPrompt)

theorem mem_order (ordered : inventory.linearOrder = .ok order) :
    ∀ vertex ∈ inventory.constraintGraph.vertices, vertex ∈ order := by
  rw [vertices_constraintGraph]
  exact fun vertex => (linearOrder_sound ordered).2.1.mem_iff.mpr

include scheduled ordered nodes prompt

/-- Among the work that becomes urgent with an item are all finalizers of the item, in the order of
the schedule. -/
theorem released_works
    (leads : lineup.LeadsTo inventory.constraintGraph inventory.isUrgent order)
    (split : order = lineup.placed ++ item :: left) :
    (schedule.nodes.filter fun node => decide (item ∈ node.finalizes)).filter
        (isAhead (lineup.placed ++ [item])) =
      inventory.worksOf (lineup.released inventory.constraintGraph inventory.isUrgent item) := by
  obtain ⟨_, placed⟩ := leads.next (nodup_vertices ordered) split
  have member : item ∈ order := split ▸ List.mem_append_cons_self
  refine (List.filter_filter ..).trans (filter_eq_of_sublist ?_
    (wellFormed_schedule scheduled).nodup_nodes fun node listed => ?_)
  · have rest : order = (lineup.place inventory.constraintGraph inventory.isUrgent item).placed ++
        left := split.trans (List.append_cons ..)
    have upcoming := placed.isPrefix_urgent (nodup_vertices ordered) (mem_order ordered) rest
    have released := (List.sublist_append_right _ _).trans upcoming.sublist
    refine List.filter_sublist.trans ?_
    rw [nodes, rest]
    exact (released.trans (List.sublist_append_right _ _)).map _
  · obtain ⟨indexed, same⟩ := node_of_schedule scheduled listed
    have named : node ∈ inventory.worksOf
        (lineup.released inventory.constraintGraph inventory.isUrgent item) ↔
          node.isWork = true ∧
            node.item ∈ lineup.released inventory.constraintGraph inventory.isUrgent item := by
      rw [worksOf, List.mem_filter, and_comm]
      refine and_congr_right fun _ => ⟨fun mapped => ?_, fun released => ?_⟩
      · obtain ⟨other, released, rfl⟩ := List.mem_map.mp mapped
        exact released
      · exact List.mem_map.mpr ⟨node.item, released, same.symm⟩
    have finalizes : item ∈ node.finalizes ↔
        node.item ∈ (inventory.relations item).finalizers := by
      rw [same, show (inventory.scheduledNode _ node.item).finalizes =
        inventory.finalizedBy node.item from rfl, mem_finalizedBy]
      exact and_iff_right ((linearOrder_sound ordered).2.1.mem_iff.mp member)
    rw [named, isAhead, Bool.and_eq_true, Bool.and_eq_true, decide_eq_true_eq, decide_eq_true_eq,
      finalizes, Lineup.mem_released, and_assoc]
    refine and_congr_right fun work => ⟨fun ⟨ahead, finalizer⟩ => ?_, fun released => ?_⟩
    · have adjacent : inventory.constraintGraph.Adjacent item node.item := by
        rw [constraintGraph_eq, Graph.adjacent_connectAll]
        exact .inl (adjacent_relationGraph.mpr
          ⟨(linearOrder_sound ordered).2.1.mem_iff.mp member, indexed, .inr finalizer⟩)
      have cut : schedule.nodes = lineup.placed.map inventory.nodeFor ++
          inventory.nodeFor item :: left.map inventory.nodeFor := by
        rw [nodes, split, List.map_append, List.map_cons]
      have soon := (prompt _ _ _ cut node (Schedule.mem_works.mpr ⟨listed, work⟩)
        (finalizes.mpr finalizer)).2
      refine ⟨by rwa [vertices_constraintGraph], adjacent, ?_, ?_⟩
      · refine Graph.isReleased_iff.mpr fun before waits => ?_
        obtain ⟨kind, waited⟩ := exists_mem_predecessors scheduled listed waits
        have placedBefore := soon _ waited
        rwa [show (lineup.placed.map inventory.nodeFor).map (·.item) = lineup.placed from
          map_item_scheduledNode ..] at placedBefore
      · simp [isUrgent, finalizer]
    · have unplaced := ((placed.valid.offered node.item).mp
        (.inr (List.mem_append_right _ (Lineup.mem_released.mpr released)))).2.1
      refine ⟨unplaced, ?_⟩
      have urgent := released.2.2.2
      rw [isUrgent, Bool.or_eq_true, decide_eq_true_eq, decide_eq_true_eq] at urgent
      rcases urgent with marker | finalizer
      · obtain ⟨ordinal, _, marked⟩ := List.mem_map.mp marker
        simp [ScheduledNode.isWork, ScheduledNode.isMarker, ← marked, WorkItem.isMarker] at work
      · exact finalizer

omit scheduled ordered nodes prompt in
theorem worksOf_filter_ne (items : List WorkItem) (item : WorkItem) :
    inventory.worksOf (items.filter (· ≠ item)) =
      (inventory.worksOf items).filter fun node => decide (node.item ≠ item) := by
  simp only [worksOf, List.filter_map, List.filter_filter, Function.comp_def, nodeFor,
    scheduledNode]
  congr 1
  exact List.filter_congr fun other _ => Bool.and_comm _ _

omit scheduled nodes prompt in
theorem urgent_cases (leads : lineup.LeadsTo inventory.constraintGraph inventory.isUrgent order)
    (split : order = lineup.placed ++ item :: left) :
    lineup.urgent = [] ∨ ∃ later, lineup.urgent = item :: later := by
  have upcoming := leads.isPrefix_urgent (nodup_vertices ordered) (mem_order ordered) split
  cases urgent : lineup.urgent with
  | nil => exact .inl rfl
  | cons head tail =>
      rw [urgent, List.cons_prefix_cons] at upcoming
      exact .inr ⟨tail, by rw [upcoming.1]⟩

/-- The work in line that is still ahead is the work among the urgent items. -/
def IsInStep (inventory : Inventory) (schedule : Schedule) (lineup : Lineup) : Prop :=
  (schedule.line (inventory.worksOf lineup.placed)).filter (isAhead lineup.placed) =
    inventory.worksOf lineup.urgent

theorem IsInStep.place
    (leads : lineup.LeadsTo inventory.constraintGraph inventory.isUrgent order)
    (split : order = lineup.placed ++ item :: left) (same : inventory.IsInStep schedule lineup) :
    inventory.IsInStep schedule
      (lineup.place inventory.constraintGraph inventory.isUrgent item) := by
  obtain ⟨next, _⟩ := leads.next (nodup_vertices ordered) split
  have joined := released_works scheduled ordered nodes prompt leads split
  have stays : (schedule.line (inventory.worksOf lineup.placed)).filter
      (isAhead (lineup.placed ++ [item])) =
        inventory.worksOf (lineup.urgent.filter (· ≠ item)) := by
    rw [worksOf_filter_ne, ← same, List.filter_filter]
    exact List.filter_congr fun node _ => isAhead_concat _ _ node
  show (schedule.line (inventory.worksOf (lineup.placed ++ [item]))).filter
    (isAhead (lineup.placed ++ [item])) = _
  rw [Lineup.urgent_place, worksOf_append, worksOf_append, ← joined, ← stays]
  cases work : (inventory.nodeFor item).isWork with
  | true =>
      have single : inventory.worksOf [item] = [inventory.nodeFor item] := by
        simp [worksOf, work]
      rw [single, Schedule.line_concat, Schedule.advance, List.filter_append]
      congr 1
      refine filter_tail_dropWhile (isAhead lineup.placed) _ ?_ ?_ ?_
      · intro node ahead
        rw [isAhead_concat, Bool.and_eq_true] at ahead
        exact ahead.2
      · simp [isAhead]
      · obtain ⟨_, unplaced, _⟩ :=
          (leads.valid.offered item).mp (Lineup.mem_of_next? next)
        rw [same]
        rcases urgent_cases ordered leads split with none | ⟨later, urgent⟩
        · exact .inl (by rw [none]; rfl)
        · rw [urgent]
          refine .inr ⟨?_, ?_⟩
          · simp [isAhead, work, unplaced]
          · simp [worksOf, work]
  | false =>
      have idle : inventory.worksOf [item] = [] := by simp [worksOf, work]
      rw [idle, List.append_nil]
      refine (List.append_right_eq_self.mpr ?_).symm
      refine List.filter_eq_nil_iff.mpr fun finalizer member ahead => ?_
      obtain ⟨listed, finalizes⟩ := List.mem_filter.mp member
      have cut : schedule.nodes = lineup.placed.map inventory.nodeFor ++
          inventory.nodeFor item :: left.map inventory.nodeFor := by
        rw [nodes, split, List.map_append, List.map_cons]
      have works := Schedule.mem_works.mpr ⟨listed, (Bool.and_eq_true_iff.mp ahead).1⟩
      rw [(prompt _ _ _ cut finalizer works (of_decide_eq_true finalizes)).1] at work
      cases work

/-- The line and the linearization are in step at every point of the order. -/
theorem exists_isInStep {earlier : List WorkItem} (split : order = earlier ++ left) :
    ∃ lineup : Lineup, lineup.placed = earlier ∧
      lineup.LeadsTo inventory.constraintGraph inventory.isUrgent order ∧
      inventory.IsInStep schedule lineup := by
  have start : inventory.IsInStep schedule (.initial inventory.constraintGraph) := rfl
  exact Lineup.exists_leadsTo (linearize_of_linearOrder ordered) (nodup_vertices ordered) start
    (fun _ _ _ => IsInStep.place scheduled ordered nodes prompt) split

/-- The work of a prompt schedule is never overtaken. -/
theorem eq_of_mem_firstInLine? {done rest : List ScheduledNode} {next : ScheduledNode}
    (split : schedule.works = done ++ next :: rest) :
    ∀ other ∈ schedule.firstInLine? done, other = next := by
  have wellFormed := wellFormed_schedule scheduled
  obtain ⟨earlier, later, cut, worked⟩ := Schedule.exists_split split
  have due := List.find?_some (wellFormed.find?_isDue split)
  obtain ⟨front, back, shape, mapped, mappedBack⟩ := List.map_eq_append_iff.mp (nodes ▸ cut)
  obtain ⟨item, last, rfl, rfl, rfl⟩ := List.map_eq_cons_iff.mp mappedBack
  subst mapped
  obtain ⟨lineup, rfl, leads, same⟩ := exists_isInStep scheduled ordered nodes prompt shape
  have worked : inventory.worksOf lineup.placed = done := worked
  rw [IsInStep, worked] at same
  have ahead : ∀ other ∈ schedule.line done, schedule.isDue done other = true →
      isAhead lineup.placed other = true := by
    intro other inLine otherDue
    have listed := schedule.line_subset done inLine
    obtain ⟨unended, waited⟩ := Schedule.isDue_iff.mp otherDue
    rw [isAhead, Bool.and_eq_true, decide_eq_true_eq]
    constructor
    · by_contra idle
      exact unended ((wellFormed.mem_ended listed).mpr
        (.inr ⟨Bool.eq_false_iff.mpr idle, waited⟩))
    · intro passed
      have front : other ∈ lineup.placed.map inventory.nodeFor :=
        List.mem_map.mpr ⟨other.item, passed, (node_of_schedule scheduled listed).2.symm⟩
      exact unended (wellFormed.mem_ended_of_mem cut worked front)
  intro other found
  have inLine := List.mem_of_find?_eq_some found
  rcases urgent_cases ordered leads shape with none | ⟨later, urgent⟩
  · rw [none] at same
    have present := List.mem_filter.mpr ⟨inLine, ahead other inLine (List.find?_some found)⟩
    rw [same] at present
    cases present
  · have work := (Schedule.mem_works.mp (split ▸ List.mem_append_cons_self)).2
    have first : inventory.worksOf lineup.urgent =
        inventory.nodeFor item :: inventory.worksOf later := by
      rw [urgent, worksOf, List.map_cons, List.filter_cons_of_pos work]
      rfl
    obtain ⟨before, behind, line, passed, _, _⟩ := List.filter_eq_cons_iff.mp (same.trans first)
    have none : before.find? (schedule.isDue done) = none := by
      refine List.find?_eq_none.mpr fun node member nodeDue => passed node member (ahead node ?_ nodeDue)
      exact line ▸ List.mem_append_left _ member
    rw [Schedule.firstInLine?, line, List.find?_append, none, Option.none_or,
      List.find?_cons_of_pos due] at found
    exact (Option.some.inj found).symm

end

end Inventory

end TaskPlanner
