import TaskPlanner.Proofs.Graph.Urgency
import TaskPlanner.Proofs.Schedule.WellFormed

/-! A finalizer follows what it finalizes as soon as its other predecessors allow: only markers and
other finalizers are placed in between. -/

set_option autoImplicit false

namespace TaskPlanner.Inventory

variable {inventory : Inventory} {schedule : Schedule} {item other : WorkItem}

theorem isUrgent_iff : inventory.isUrgent item other = true ↔
    (∃ ordinal ∈ inventory.markedOrdinals, .marker ordinal = other) ∨
      other ∈ (inventory.relations item).finalizers := by
  simp [isUrgent]

/-- The finalizers of an item wait for it. -/
theorem adjacent_of_finalizer (target : item ∈ inventory.index) (listed : other ∈ inventory.index)
    (finalizes : other ∈ (inventory.relations item).finalizers) :
    inventory.constraintGraph.Adjacent item other := by
  rw [constraintGraph_eq, Graph.adjacent_connectAll]
  exact .inl (adjacent_relationGraph.mpr ⟨target, listed, .inr finalizes⟩)

theorem finalizes_of_urgent (scheduled : inventory.schedule = .ok schedule) {node : ScheduledNode}
    (listed : node ∈ schedule.nodes) (target : item ∈ inventory.index)
    (urgent : inventory.isUrgent item node.item = true) :
    node.isMarker = true ∨ item ∈ node.finalizes := by
  rcases isUrgent_iff.mp urgent with ⟨ordinal, _, marker⟩ | finalizer
  · left
    simp [ScheduledNode.isMarker, ← marker, WorkItem.isMarker]
  · right
    rw [(node_of_schedule scheduled listed).2]
    exact mem_finalizedBy.mpr ⟨target, finalizer⟩

/-- Once everything else that a finalizer waits for stands in front of an item that it finalizes,
the finalizer comes next but for markers and for other finalizers of what stands there. -/
theorem finalizer_follows {earlier later : List ScheduledNode} {target finalizer : ScheduledNode}
    (scheduled : inventory.schedule = .ok schedule)
    (split : schedule.nodes = earlier ++ target :: later)
    (listed : finalizer ∈ schedule.nodes) (finalizes : target.item ∈ finalizer.finalizes)
    (waited : ∀ before ∈ finalizer.predecessors,
      before.1 ≠ target.item → before.1 ∈ earlier.map (·.item)) :
    ∃ between rest, later = between ++ finalizer :: rest ∧ ∀ node ∈ between,
      node.isMarker = true ∨ ∃ before ∈ earlier ++ [target], before.item ∈ node.finalizes := by
  obtain ⟨order, ordered, nodes⟩ := schedule_eq_ok scheduled
  have items : order = earlier.map (·.item) ++ target.item :: later.map (·.item) := by
    rw [← map_item_scheduledNode inventory inventory.constraintGraph order, ← nodes, split]
    simp
  obtain ⟨indexed, same⟩ := node_of_schedule scheduled listed
  rw [same] at finalizes
  obtain ⟨present, related⟩ := mem_finalizedBy.mp finalizes
  have prompt : ∀ before, inventory.constraintGraph.Adjacent before finalizer.item →
      before ∈ earlier.map (·.item) ++ [target.item] := by
    intro before adjacent
    obtain ⟨kind, waits⟩ := exists_mem_predecessors scheduled listed adjacent
    by_cases last : before = target.item
    · simp [last]
    · exact List.mem_append_left _ (waited _ waits last)
  obtain ⟨between, rest, cut, caused⟩ := Lineup.exists_between_urgent
    (linearize_of_linearOrder ordered) (nodup_vertices ordered) items
    (by rwa [vertices_constraintGraph]) (adjacent_of_finalizer present indexed related)
    (isUrgent_iff.mpr (.inr related)) prompt
  obtain ⟨passed, behind, rfl, rfl, mapped⟩ := List.map_eq_append_iff.mp cut
  obtain ⟨node, last, rfl, named, rfl⟩ := List.map_eq_cons_iff.mp mapped
  have inside : ∀ other ∈ passed ++ node :: last, other ∈ schedule.nodes := by
    intro other member
    rw [split]
    exact List.mem_append_right _ (List.mem_cons_of_mem _ member)
  have found : node = finalizer :=
    (wellFormed_schedule scheduled).node_unique (inside node (by simp)) listed named
  subst found
  refine ⟨passed, last, rfl, fun other member => ?_⟩
  obtain ⟨before, placed, urgent⟩ := caused other.item (List.mem_map_of_mem member)
  have placed : before ∈ (earlier ++ [target]).map (·.item) := by
    simpa using placed
  obtain ⟨source, front, rfl⟩ := List.mem_map.mp placed
  have sourceListed : source ∈ schedule.nodes := by
    rw [split]
    simp at front ⊢
    tauto
  exact (finalizes_of_urgent scheduled (inside other (List.mem_append_left _ member))
    (node_of_schedule scheduled sourceListed).1 urgent).imp_right fun finalizes =>
      ⟨source, front, finalizes⟩

/-- Tasks `compile` and `test`; when `compile` is through, `report` and `archive` follow. -/
def twoFinalizers : Inventory where
  catalog := {
    entries := [
      (.task "compile", { relations := { finalizers := [.task "report", .task "archive"] } }),
      (.task "report", {}), (.task "archive", {}), (.task "test", {})] }
  index := { items := [.task "compile", .task "test", .task "report", .task "archive"] }
  finalizers := { items := [.task "report", .task "archive"] }

theorem finalizer_follows_twoFinalizers :
    ∃ schedule target report archive test, twoFinalizers.schedule = .ok schedule ∧
      schedule.nodes = [target, report, archive, test] ∧
      (∀ before ∈ archive.predecessors,
        before.1 ≠ target.item → before.1 ∈ ([] : List ScheduledNode).map (·.item)) ∧
      ∃ between rest, [report, archive, test] = between ++ archive :: rest ∧ ∀ node ∈ between,
        node.isMarker = true ∨ ∃ before ∈ [] ++ [target], before.item ∈ node.finalizes := by
  obtain ⟨schedule, scheduled, nodes⟩ : ∃ schedule, twoFinalizers.schedule = .ok schedule ∧
      schedule.nodes = [.task "compile", .task "report", .task "archive", .task "test"].map
        (twoFinalizers.scheduledNode twoFinalizers.constraintGraph) := ⟨_, rfl, by decide⟩
  refine ⟨schedule, _, _, _, _, scheduled, nodes, by decide, ?_⟩
  exact finalizer_follows scheduled nodes (by simp [nodes]) (by decide) (by decide)

end TaskPlanner.Inventory
