import TaskPlanner.Proofs.Plan.Gathering
import TaskPlanner.Proofs.Schedule.Leading
import TaskPlanner.Resolver.Rows

/-! Items that an earlier batch pulls forward: they belong to one batch and are needed by an earlier
one. The marker of neither batch holds them back, so they stand behind an older batch only if
something that they wait for does. -/

set_option autoImplicit false

namespace TaskPlanner

namespace Inventory

variable {inventory : Inventory} {schedule : Schedule} {own ordinal : Ordinal}
  {entry item held : WorkItem}

/-- The item belongs to the batch `own`, and the earlier batch `ordinal` needs it. -/
structure IsPulledForward (inventory : Inventory) (own ordinal : Ordinal) (item : WorkItem) :
    Prop where
  grouped : (inventory.node item).group = some own
  effective : inventory.effectiveGroups.find? item = some ordinal
  forward : ordinal < own

theorem IsPulledForward.isNeededBefore (pulled : inventory.IsPulledForward own ordinal item) :
    inventory.IsNeededBefore own item := by
  obtain ⟨target, waits, owned⟩ := Graph.exists_own_of_effectiveGroups pulled.effective
  rcases waits with rfl | reaches
  · cases pulled.grouped.symm.trans owned
    exact absurd pulled.forward (Fin.lt_irrefl _)
  · exact ⟨target, ordinal, reaches, owned, pulled.forward⟩

/-- Such an item is due for no batch. -/
theorem IsPulledForward.not_isDue (pulled : inventory.IsPulledForward own ordinal item)
    (other : Ordinal) : ¬inventory.IsDue other item := by
  intro due
  cases pulled.grouped.symm.trans due.own
  exact (isDue_iff.mp due).2 pulled.isNeededBefore

/-- No marker holds such an item back. -/
theorem IsPulledForward.marker_not_mem (pulled : inventory.IsPulledForward own ordinal item)
    (orderly : inventory.IsOrderly) (unmarked : item.isMarker = false) (other : Ordinal)
    (kind : EdgeKind) : (.marker other, kind) ∉ inventory.constraintGraph.predecessors item := by
  intro member
  have adjacent := Graph.mem_predecessors.mp (List.mem_map_of_mem member)
  rcases orderly.adjacent_cases adjacent unmarked with related | ⟨other, _, due⟩
  · cases (orderly.apart.relations _ _ related).1
  · exact pulled.not_isDue other due

/-- What leads to such an item leads through the item's own dependencies, or passes a marker on the
way to one of them. -/
theorem IsPulledForward.leads_iff (pulled : inventory.IsPulledForward own ordinal item)
    (orderly : inventory.IsOrderly) (scheduled : inventory.schedule = .ok schedule)
    (indexed : item ∈ inventory.index) (unmarked : item.isMarker = false)
    (entryUnmarked : entry.isMarker = false) :
    schedule.Leads entry item ↔ inventory.relationGraph.Reaches entry item ∨
      ∃ other held, inventory.IsDue other held ∧ inventory.relationGraph.Reaches held item ∧
        schedule.Leads entry (.marker other) := by
  refine (orderly.leads_iff scheduled (mem_nodes_of_mem_index scheduled indexed) unmarked
    entryUnmarked).trans (or_congr_right ⟨?_, ?_⟩)
  · rintro ⟨other, held, due, rfl | reaches, ahead⟩
    · exact absurd due (pulled.not_isDue other)
    · exact ⟨other, held, due, reaches, ahead⟩
  · rintro ⟨other, held, due, reaches, ahead⟩
    exact ⟨other, held, due, .inr reaches, ahead⟩

end Inventory

namespace Plan

variable {plan : Plan}

/-- No marker holds back an item that an earlier batch pulls forward. What a batch requests leads to
it exactly if it does so through dependencies and finalizers, or through the marker in front of
something that the item waits for. It does so, and stands in front of the item, if anything that the
item waits for is due behind the batch. -/
theorem pulledForward_leads_iff (gathered : plan.Gathered) {schedule : Schedule}
    (determined : plan.determine.result = .ok schedule) {earlier later : List ScheduledNode}
    {node : ScheduledNode} (split : schedule.nodes = earlier ++ node :: later)
    (unmarked : node.isMarker = false) {own ordinal : Ordinal} (grouped : node.group = some own)
    (effective :
      plan.determine.plan.toInventory.effectiveGroups.find? node.item = some ordinal)
    (forward : ordinal < own) :
    (∀ other kind, (.marker other, kind) ∉ node.predecessors) ∧
      ∀ batch ∈ plan.determine.plan.batches.batches, ∀ entry ∈ batch.entries,
        entry ∈ plan.determine.plan.index →
          (schedule.Leads entry node.item ↔
            plan.determine.plan.toInventory.relationGraph.Reaches entry node.item ∨
              ∃ other held, plan.determine.plan.toInventory.IsDue other held ∧
                plan.determine.plan.toInventory.relationGraph.Reaches held node.item ∧
                schedule.Leads entry (.marker other)) ∧
          (schedule.Leads entry node.item → entry ∈ earlier.map (·.item)) ∧
          ∀ other held, plan.determine.plan.toInventory.IsDue other held →
            plan.determine.plan.toInventory.relationGraph.Reaches held node.item →
            batch.ordinal < other → schedule.Leads entry node.item := by
  have member : node ∈ schedule.nodes := by simp [split]
  obtain ⟨orderly, scheduled⟩ := gathered.isOrderly_of_mem determined member
  obtain ⟨indexed, same⟩ := Inventory.node_of_schedule scheduled member
  have pulled : plan.determine.plan.toInventory.IsPulledForward own ordinal node.item := by
    refine ⟨?_, effective, forward⟩
    rw [same] at grouped
    exact grouped
  refine ⟨fun other kind => ?_, fun batch listed entry requested present => ⟨?_, ?_, ?_⟩⟩
  · rw [same]
    exact pulled.marker_not_mem orderly unmarked other kind
  · exact pulled.leads_iff orderly scheduled indexed unmarked
      (orderly.apart.entries batch listed entry requested)
  · exact fun leads => leads.mem_earlier (Inventory.wellFormed_schedule scheduled) split
  · intro other held due reaches behind
    exact (orderly.leads_iff_reaches scheduled).mpr
      (orderly.reaches due (.inr reaches) indexed unmarked listed behind requested present)

/-! ## An example -/

def toolsResolver : Resolver :=
  .ofDeclarations
    [.finalizer "compile" "report", .softDependency "report" "tools",
      .softDependency "lint" "tools", .dependency "package" "tools"]

/-- The tools are asked for by a report on the first of three batches, wanted by the second, and
join the third. -/
def toolsPlan : Plan :=
  (((examplePlan.take toolsResolver (.tasks ["compile", "format"] none)).plan.take toolsResolver
    (.tasks ["lint"] none)).plan.take toolsResolver (.tasks ["package"] none)).plan

theorem gathered_toolsPlan : toolsPlan.Gathered := by
  have avoids : toolsResolver.AvoidsMarkers := .of_mentionable (by decide)
  have fresh : examplePlan.Gathered := .fresh (isFresh_new _ _) rfl
  have first := fresh.take avoids (Submission.tasks_unmarked ["compile", "format"] none) rfl
  have second := first.take avoids (Submission.tasks_unmarked ["lint"] none) rfl
  exact second.take avoids (Submission.tasks_unmarked ["package"] none) rfl

def toolsSchedule : Schedule :=
  .ofNodes
    [{ item := .task "compile", group := some (.ofPosition 0), isEntry := true },
      { item := .task "tools", group := some (.ofPosition 2) },
      { item := .task "report",
        predecessors := [(.task "compile", .finalizes), (.task "tools", .dependency)],
        finalizes := [.task "compile"], isFinalizerOnly := true },
      { item := .task "format", group := some (.ofPosition 0), isEntry := true },
      { item := .marker (.ofPosition 1), group := some (.ofPosition 1),
        predecessors := [(.task "compile", .ordinal), (.task "format", .ordinal)] },
      { item := .task "lint", group := some (.ofPosition 1),
        predecessors := [(.task "tools", .dependency), (.marker (.ofPosition 1), .ordinal)],
        isEntry := true },
      { item := .marker (.ofPosition 2), group := some (.ofPosition 2),
        predecessors := [(.task "lint", .ordinal), (.marker (.ofPosition 1), .ordinal)] },
      { item := .task "package", group := some (.ofPosition 2),
        predecessors := [(.task "tools", .dependency), (.marker (.ofPosition 2), .ordinal)],
        isEntry := true }]
    []

theorem determine_toolsPlan : toolsPlan.determine.result = .ok toolsSchedule := rfl

theorem pulledForward_tools :
    toolsPlan.determine.result = .ok toolsSchedule ∧
      toolsSchedule.nodes[1].group = some (.ofPosition 2) ∧
      toolsPlan.determine.plan.toInventory.effectiveGroups.find? (.task "tools") =
        some (.ofPosition 1) ∧
      (∀ other kind, (.marker other, kind) ∉ toolsSchedule.nodes[1].predecessors) ∧
      ¬toolsSchedule.Leads (.task "format") (.task "tools") := by
  have split : toolsSchedule.nodes =
      toolsSchedule.nodes.take 1 ++ toolsSchedule.nodes[1] :: toolsSchedule.nodes.drop 2 := rfl
  have effective : toolsPlan.determine.plan.toInventory.effectiveGroups.find? (.task "tools") =
      some (.ofPosition 1) := by decide
  have listed : ⟨.ofPosition 0, { items := [.task "compile", .task "format"] }⟩ ∈
      toolsPlan.determine.plan.batches.batches := List.mem_cons_self
  obtain ⟨free, every⟩ := pulledForward_leads_iff gathered_toolsPlan determine_toolsPlan split rfl
    rfl effective (by decide)
  obtain ⟨_, front, _⟩ := every _ listed (.task "format") (by decide) (by decide)
  exact ⟨determine_toolsPlan, rfl, effective, free, fun leads => absurd (front leads) (by decide)⟩

/-- The second batch needs the tools, and yet they stand in front of an entry of the first. -/
theorem tools_in_front_of_format :
    toolsPlan.Gathered ∧ toolsPlan.determine.result = .ok toolsSchedule ∧
      (∃ node ∈ toolsSchedule.nodes, node.item = .task "tools" ∧ node.isMarker = false ∧
        node.group = some (.ofPosition 2)) ∧
      toolsPlan.determine.plan.toInventory.effectiveGroups.find? (.task "tools") =
        some (.ofPosition 1) ∧
      (.task "format" ∈ toolsPlan.determine.plan.batches.entriesOf (.ofPosition 0) ∧
        .task "format" ∈ toolsPlan.determine.plan.index) ∧
      toolsSchedule.order = ["compile", "tools", "report", "format", "lint", "package"] := by
  refine ⟨gathered_toolsPlan, determine_toolsPlan, ⟨toolsSchedule.nodes[1], ?_, rfl, rfl, rfl⟩, ?_⟩
  · exact List.getElem_mem _
  · decide

end Plan

end TaskPlanner
