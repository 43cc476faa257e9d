import TaskPlanner.Proofs.Plan.Operations
import TaskPlanner.Proofs.Plan.Retention
import TaskPlanner.Proofs.Schedule.BatchOrder

/-! Plans that nothing but requests fill. Batches may come in any order, and the plan may be put in
order between two requests: the schedule always puts the items that no earlier batch needs behind
all that earlier batches request. -/

set_option autoImplicit false

namespace TaskPlanner

namespace Plan

variable {plan : Plan} {resolver : Resolver} {submission : Submission} {item : WorkItem}

/-- The plans that successful requests make of a fresh one. Each request may name any batch and
bring its own resolver, and the plan may be put in order in between. -/
inductive Gathered : Plan → Prop where
  | fresh {plan : Plan} : plan.IsFresh → plan.schedule? = none → Gathered plan
  | accept {plan : Plan} (accepts : String → Bool) : Gathered plan → Gathered { plan with accepts }
  | take {plan : Plan} {resolver : Resolver} {submission : Submission} : Gathered plan →
      resolver.AvoidsMarkers → (∀ item ∈ submission.requested, item.isMarker = false) →
      (plan.take resolver submission).result = .ok () →
      Gathered (plan.take resolver submission).plan
  | determine {plan : Plan} : Gathered plan → Gathered plan.determine.plan

/-! ## Groups -/

/-- The nodes of the plan belong to batches that were opened. -/
def IsGrouped (plan : Plan) : Prop :=
  ∀ item group, (plan.node item).group = some group → group ∈ plan.batches.ordinals

end Plan

theorem Batches.mem_ordinals_addEntry {registry : Batches} {ordinal : Ordinal} {item : WorkItem}
    {group : Ordinal} :
    group ∈ (registry.addEntry ordinal item).ordinals ↔
      group ∈ registry.ordinals ∨ group = ordinal := by
  obtain ⟨batches⟩ := registry
  unfold addEntry ordinals
  dsimp only
  induction batches with
  | nil => simp [changeIn]
  | cons head rest ih =>
      unfold changeIn
      split
      · simp [or_comm]
      · split
        next same =>
          rw [same]
          simp only [List.map_cons, List.mem_cons]
          exact ⟨.inl, fun either => either.elim id .inl⟩
        next => simp only [List.map_cons, List.mem_cons, ih, or_assoc]

namespace Plan

variable {plan : Plan} {resolver : Resolver} {submission : Submission} {item : WorkItem}

theorem IsGrouped.request (grouped : plan.IsGrouped) (ordinal : Ordinal) (item : WorkItem) :
    (plan.request ordinal item).IsGrouped := by
  intro other group present
  refine Batches.mem_ordinals_addEntry.mpr ?_
  rw [node_request] at present
  split at present
  · exact ((plan.node item).group_join_cases ordinal group present).imp_left (grouped item group)
  · exact .inl (grouped other group present)

theorem IsGrouped.prepare (grouped : plan.IsGrouped) (submission : Submission) :
    (plan.prepare submission).IsGrouped := by
  refine prepare_induction IsGrouped grouped (fun other items ih item group present => ?_)
    (fun _ _ ih => ih) fun other item _ ih => ih.request _ item
  rw [node_mention] at present
  exact ih item group present

end Plan

namespace Walk

variable {resolver : Resolver} {walk next : Walk}

theorem Moves.isGrouped (moves : Moves resolver walk next) (grouped : walk.plan.IsGrouped) :
    next.plan.IsGrouped := by
  let property (node : Node) : Prop :=
    ∀ group, node.group = some group → group ∈ walk.plan.batches.ordinals
  suffices every : ∀ item, property (next.plan.node item) by
    intro item group present
    rw [moves.batches_eq]
    exact every item group present
  intro item
  have before : property (walk.plan.node item) := grouped item
  cases moves with
  | drop => exact before
  | setAside => exact Catalog.update_keeps property (fun _ => id) before
  | leave => exact Catalog.update_keeps property (fun _ => id) before
  | @descend visit rest resolution =>
      have inquired : ∀ other, property ((walk.plan.inquire visit.item).node other) :=
        fun other => Plan.inquire_keeps property (fun _ _ => id) (grouped other)
      refine Plan.adopt_keeps_joined property (fun _ _ => id) (fun _ _ => id) resolution ?_
        (inquired item)
      intro _ node own group present
      cases found : ((walk.plan.inquire visit.item).node visit.item).group with
      | none =>
          rw [found] at present
          exact own group present
      | some ordinal =>
          rw [found] at present
          rcases node.group_join_cases ordinal group present with same | rfl
          · exact own group same
          · exact inquired visit.item group found

end Walk

/-! ## Relations -/

namespace Plan

/-- Nothing that is known about the item has to do with markers. -/
def KeepsApart (plan : Plan) (item : WorkItem) : Prop :=
  plan.relations item = {} ∨ item.isMarker = false ∧
    (∀ other ∈ (plan.relations item).dependencies, other.isMarker = false) ∧
    ∀ other ∈ (plan.relations item).finalizers, other.isMarker = false

variable {plan : Plan} {resolver : Resolver} {submission : Submission} {item other : WorkItem}

theorem KeepsApart.dependency (apart : plan.KeepsApart item)
    (member : other ∈ (plan.relations item).dependencies) :
    other.isMarker = false ∧ item.isMarker = false := by
  rcases apart with none | ⟨unmarked, dependencies, _⟩
  · rw [none] at member
    cases member
  · exact ⟨dependencies other member, unmarked⟩

theorem KeepsApart.finalizer (apart : plan.KeepsApart item)
    (member : other ∈ (plan.relations item).finalizers) :
    item.isMarker = false ∧ other.isMarker = false := by
  rcases apart with none | ⟨unmarked, _, finalizers⟩
  · rw [none] at member
    cases member
  · exact ⟨unmarked, finalizers other member⟩

end Plan

namespace Walk

variable {resolver : Resolver} {walk next last : Walk}

theorem Moves.keepsApart (moves : Moves resolver walk next) (avoids : resolver.AvoidsMarkers)
    (apart : ∀ item, walk.plan.KeepsApart item)
    (unmarked : ∀ visit ∈ walk.queue, visit.item.isMarker = false) (item : WorkItem) :
    next.plan.KeepsApart item := by
  cases moves with
  | drop => exact apart item
  | setAside =>
      unfold Plan.KeepsApart
      rw [Plan.relations_setAside]
      exact apart item
  | @leave visit =>
      show (walk.plan.enroll visit.item).KeepsApart item
      unfold Plan.KeepsApart
      rw [Plan.relations_enroll]
      exact apart item
  | @descend visit rest resolution front _ _ _ answered =>
      show ((walk.plan.inquire visit.item).adopt visit.item resolution).KeepsApart item
      unfold Plan.KeepsApart
      rw [Plan.relations_adopt_inquire]
      split
      next same =>
        have mentioned := avoids visit.item resolution answered
        refine .inr ⟨?_, fun other member => mentioned other ?_,
          fun other member => mentioned other (List.mem_append_right _ member)⟩
        · rw [same]
          exact unmarked visit (front ▸ List.mem_cons_self)
        · exact resolution.dependencies_subset_mentioned member
      next => exact apart item

/-- What a walk keeps apart from markers, if it starts so. -/
structure IsApart (walk : Walk) : Prop where
  grouped : walk.plan.IsGrouped
  apart : ∀ item, walk.plan.KeepsApart item
  unmarked : ∀ visit ∈ walk.queue, visit.item.isMarker = false

theorem Reaches.isApart (reaches : Reaches resolver walk last) (avoids : resolver.AvoidsMarkers)
    (isApart : walk.IsApart) : last.IsApart := by
  induction reaches with
  | refl => exact isApart
  | tail _ moves ih =>
      exact ⟨moves.isGrouped ih.grouped, moves.keepsApart avoids ih.apart ih.unmarked,
        moves.unmarked avoids (fun item _ member => ((ih.apart item).finalizer member).2)
          ih.unmarked⟩

end Walk

/-! ## Gathered plans -/

/-- The schedule is empty, or that of an inventory in good order. -/
def Inventory.IsOrderedBy (inventory : Inventory) (schedule : Schedule) : Prop :=
  schedule.nodes = [] ∨ inventory.IsOrderly ∧ inventory.schedule = .ok schedule

namespace Plan

variable {plan : Plan} {resolver : Resolver} {submission : Submission}

/-- The batches of a plan are in order, and nothing in it has to do with markers. -/
structure IsTidy (plan : Plan) : Prop where
  batched : plan.IsBatched
  grouped : plan.IsGrouped
  apart : ∀ item, plan.KeepsApart item

theorem IsTidy.relations_marker (tidy : plan.IsTidy) (ordinal : Ordinal) :
    plan.relations (.marker ordinal) = {} := by
  rcases tidy.apart (.marker ordinal) with none | ⟨unmarked, _⟩
  · exact none
  · cases unmarked

theorem IsTidy.of_toInventory_eq {before after : Plan} (tidy : before.IsTidy)
    (same : after.toInventory = before.toInventory) : after.IsTidy := by
  obtain ⟨⟨batched, unmarked⟩, grouped, apart⟩ := tidy
  refine ⟨⟨same ▸ batched, ?_⟩, ?_, ?_⟩
  · show ∀ batch ∈ after.toInventory.batches.batches, _
    rw [same]
    exact unmarked
  · show ∀ item group, (after.toInventory.node item).group = some group →
      group ∈ after.toInventory.batches.ordinals
    rw [same]
    exact grouped
  · intro item
    unfold KeepsApart
    rw [show after.relations item = before.relations item from
      congrArg (fun found => found.relations item) same]
    exact apart item

theorem IsTidy.marked (tidy : plan.IsTidy) :
    ({ plan with toInventory := plan.toInventory.withMarkers } : Plan).IsTidy := by
  have marks := plan.toInventory.marks_withMarkers
  refine ⟨⟨tidy.batched.batched.of_dueBy marks.batches marks.dueBy, ?_⟩, ?_, fun item => ?_⟩
  · show ∀ batch ∈ plan.toInventory.withMarkers.batches.batches, _
    rw [marks.batches]
    exact tidy.batched.unmarked
  · intro item group present
    show group ∈ plan.toInventory.withMarkers.batches.ordinals
    rw [marks.batches]
    rcases marks.grouped item group present with before | ⟨marked, _⟩
    · exact tidy.grouped item group before
    · exact List.mem_of_mem_tail marked
  · unfold KeepsApart
    rw [show ({ plan with toInventory := plan.toInventory.withMarkers } : Plan).relations item =
      plan.relations item from marks.relations item]
    exact tidy.apart item

/-- The inventory of a tidy plan that has all its markers is in good order. -/
theorem IsTidy.isOrderly_of_marked (tidy : plan.IsTidy)
    (marked : ∀ ordinal ∈ plan.markedOrdinals, WorkItem.marker ordinal ∈ plan.index) :
    plan.toInventory.IsOrderly where
  ascending := tidy.batched.batched.ascending
  apart := by
    refine ⟨tidy.batched.unmarked, fun source target adjacent => ?_⟩
    obtain ⟨_, _, dependency | finalizer⟩ := Inventory.adjacent_relationGraph.mp adjacent
    · exact (tidy.apart target).dependency dependency
    · exact (tidy.apart source).finalizer finalizer
  grouped := tidy.grouped
  marked := marked

theorem IsTidy.isOrderly (tidy : plan.IsTidy) : plan.toInventory.withMarkers.IsOrderly :=
  tidy.marked.isOrderly_of_marked plan.toInventory.marker_mem_withMarkers

theorem IsTidy.isApart (tidy : plan.IsTidy)
    (unmarked : ∀ item ∈ submission.requested, item.isMarker = false) :
    Walk.IsApart { plan := plan.prepare submission, queue := submission.visits } := by
  have relations := (sameFindings_prepare plan submission).relations
  refine ⟨tidy.grouped.prepare submission, fun item => ?_, fun visit member => ?_⟩
  · unfold KeepsApart
    rw [relations]
    exact tidy.apart item
  · exact unmarked visit.item (Submission.mem_visits.mp member).1

/-- What requests and orderings keep. -/
structure IsGathered (plan : Plan) : Prop extends plan.IsTidy where
  unfinalized : plan.isFinalized = false
  ordered : plan.needsOrdering = false → plan.toInventory.IsOrderedBy (plan.schedule?.getD {})

theorem IsFresh.isGathered (fresh : plan.IsFresh) (unscheduled : plan.schedule? = none) :
    plan.IsGathered where
  batched := fresh.isBatched
  grouped item group present := by
    rw [(fresh.clean item).group] at present
    cases present
  apart item := .inl (fresh.clean item).relations
  unfinalized := fresh.unfinalized
  ordered _ := .inl (by rw [unscheduled]; rfl)

theorem IsGathered.take (gathered : plan.IsGathered) (avoids : resolver.AvoidsMarkers)
    (unmarked : ∀ item ∈ submission.requested, item.isMarker = false)
    (taken : (plan.take resolver submission).result = .ok ()) :
    (plan.take resolver submission).plan.IsGathered := by
  have unfinalized := take_isFinalized resolver gathered.unfinalized submission
  obtain ⟨last, reaches, _, same⟩ := exists_last_of_take taken
  rw [same] at unfinalized ⊢
  have isApart := reaches.isApart avoids (gathered.toIsTidy.isApart unmarked)
  refine ⟨⟨reaches.isBatched (gathered.batched.prepare unmarked), isApart.grouped, isApart.apart⟩,
    unfinalized, fun settled => ?_⟩
  rw [show last.plan.needsOrdering = (plan.prepare submission).needsOrdering by
    rw [reaches.keepsRequests], needsOrdering_prepare] at settled
  cases settled

/-- A schedule that a plan comes to is that of its inventory. -/
theorem IsGathered.determine (gathered : plan.IsGathered) :
    plan.determine.plan.IsGathered ∧ ∀ schedule, plan.determine.result = .ok schedule →
      plan.determine.plan.toInventory.IsOrderedBy schedule := by
  have marked := gathered.toIsTidy.marked
  have orderly := gathered.toIsTidy.isOrderly
  have determined := plan.determines
  generalize plan.determine = attempt at determined ⊢
  cases determined with
  | settled settled =>
      have ordered := gathered.ordered settled
      refine ⟨⟨gathered.toIsTidy.of_toInventory_eq rfl, gathered.unfinalized, fun _ => ordered⟩,
        fun other same => ?_⟩
      cases same
      exact ordered
  | failed pending _ =>
      refine ⟨⟨marked.of_toInventory_eq rfl, gathered.unfinalized, fun settled => ?_⟩, by simp⟩
      cases pending.symm.trans settled
  | scheduled _ scheduled =>
      have ordered : plan.toInventory.withMarkers.IsOrderedBy _ := .inr ⟨orderly, scheduled⟩
      refine ⟨⟨marked.of_toInventory_eq rfl, gathered.unfinalized, fun _ => ordered⟩,
        fun other same => ?_⟩
      cases same
      exact ordered

theorem Gathered.isGathered (gathered : plan.Gathered) : plan.IsGathered := by
  induction gathered with
  | fresh fresh unscheduled => exact fresh.isGathered unscheduled
  | accept accepts _ ih =>
      exact ⟨ih.toIsTidy.of_toInventory_eq rfl, ih.unfinalized, ih.ordered⟩
  | take _ avoids unmarked taken ih => exact ih.take avoids unmarked taken
  | determine _ ih => exact ih.determine.1

/-- A schedule that lists anything is that of an inventory in good order. -/
theorem Gathered.isOrderly_of_mem (gathered : plan.Gathered) {schedule : Schedule}
    (determined : plan.determine.result = .ok schedule) {node : ScheduledNode}
    (member : node ∈ schedule.nodes) : plan.determine.plan.toInventory.IsOrderly ∧
      plan.determine.plan.toInventory.schedule = .ok schedule := by
  rcases gathered.isGathered.determine.2 schedule determined with none | ordered
  · rw [none] at member
    cases member
  · exact ordered

/-- The same of the schedule that is handed out for execution. -/
theorem Gathered.isOrderly_of_mem_items (gathered : plan.Gathered) {schedule : Schedule}
    (finalized : plan.finalize.result = .ok schedule) {item : WorkItem}
    (scheduled : item ∈ schedule.items) : plan.finalize.plan.toInventory.IsOrderly ∧
      plan.finalize.plan.toInventory.schedule = .ok schedule := by
  obtain ⟨same, _, inventory⟩ := plan.finalize_cases
  obtain ⟨node, member, _⟩ := List.mem_map.mp scheduled
  rw [inventory]
  exact gathered.isOrderly_of_mem (same ▸ finalized) member

/-- Markers order batches. In the schedule of a plan that requests have filled, in whatever order,
an item that no earlier batch needs stands behind everything that any earlier batch requests, and
the markers lead from there to the item. -/
theorem markers_order_batches (gathered : plan.Gathered) {schedule : Schedule}
    (determined : plan.determine.result = .ok schedule) {earlier later : List ScheduledNode}
    {node : ScheduledNode} (split : schedule.nodes = earlier ++ node :: later)
    (unmarked : node.isMarker = false) {ordinal : Ordinal}
    (due : plan.determine.plan.toInventory.IsDue ordinal node.item) {batch : Batch}
    (listed : batch ∈ plan.determine.plan.batches.batches) (order : batch.ordinal < ordinal)
    {entry : WorkItem} (requested : entry ∈ batch.entries)
    (indexed : entry ∈ plan.determine.plan.index) :
    entry ∈ earlier.map (·.item) ∧ MarkerChain schedule.AwaitsBatch entry ordinal ∧
      (.marker ordinal, .ordinal) ∈ node.predecessors := by
  rcases gathered.isGathered.determine.2 schedule determined with none | ⟨orderly, scheduled⟩
  · rw [none] at split
    cases earlier <;> cases split
  · have member : node ∈ schedule.nodes := by simp [split]
    have wellFormed := Inventory.wellFormed_schedule scheduled
    obtain ⟨chain, waits⟩ := orderly.markerChain_schedule scheduled member unmarked due listed order
      requested indexed
    have before := wellFormed.ordered earlier node later split _ waits
    exact ⟨chain.mem_front wellFormed split before, chain, waits⟩

/-! ## An example -/

/-- Three batches of the example build, the last one first. The batch of the documentation, which
is left out, has a marker all the same. -/
def lateBatches : Plan :=
  (((examplePlan.take exampleResolver (.tasks ["test"] (some (.ofPosition 4)))).plan.take exampleResolver
    (.tasks ["document"] (some (.ofPosition 2)))).plan.determine.plan.take exampleResolver
      (.tasks ["lint"] (some (.ofPosition 1)))).plan

theorem gathered_lateBatches : lateBatches.Gathered := by
  have fresh : examplePlan.Gathered := .fresh (isFresh_new _ _) rfl
  have last := fresh.take avoidsMarkers_exampleResolver
    (Submission.tasks_unmarked ["test"] (some (.ofPosition 4))) rfl
  have second := last.take avoidsMarkers_exampleResolver
    (Submission.tasks_unmarked ["document"] (some (.ofPosition 2))) rfl
  exact second.determine.take avoidsMarkers_exampleResolver
    (Submission.tasks_unmarked ["lint"] (some (.ofPosition 1))) rfl

def lateSchedule : Schedule :=
  .ofNodes
    [{ item := .task "lint", group := some (.ofPosition 1), isEntry := true },
      { item := .marker (.ofPosition 2), group := some (.ofPosition 2), predecessors := [(.task "lint", .ordinal)] },
      { item := .marker (.ofPosition 4), group := some (.ofPosition 4), predecessors := [(.marker (.ofPosition 2), .ordinal)] },
      { item := .task "compile", group := some (.ofPosition 4), predecessors := [(.marker (.ofPosition 4), .ordinal)] },
      { item := .task "cleanup", predecessors := [(.task "compile", .finalizes)],
        finalizes := [.task "compile"], isFinalizerOnly := true },
      { item := .task "test", group := some (.ofPosition 4),
        predecessors := [(.task "compile", .dependency), (.marker (.ofPosition 4), .ordinal)],
        isEntry := true }]
    [.task "document"]

theorem determine_lateBatches : lateBatches.determine.result = .ok lateSchedule := rfl

theorem markers_order_lateBatches :
    lateBatches.determine.result = .ok lateSchedule ∧
      lateBatches.determine.plan.toInventory.IsDue (.ofPosition 4) (.task "compile") ∧
      .task "lint" ∈ (lateSchedule.nodes.take 3).map (·.item) ∧
      MarkerChain lateSchedule.AwaitsBatch (.task "lint") (.ofPosition 4) := by
  have due : lateBatches.determine.plan.toInventory.IsDue (.ofPosition 4) (.task "compile") :=
    .of_edges rfl (by decide)
  have split : lateSchedule.nodes =
      lateSchedule.nodes.take 3 ++ lateSchedule.nodes[3] :: lateSchedule.nodes.drop 4 := rfl
  have listed : ⟨.ofPosition 1, { items := [.task "lint"] }⟩ ∈ lateBatches.determine.plan.batches.batches :=
    List.mem_cons_self
  have requested : .task "lint" ∈ ({ items := [.task "lint"] } : ItemSet) := List.mem_cons_self
  have indexed : .task "lint" ∈ lateBatches.determine.plan.index := by decide
  obtain ⟨before, chain, _⟩ := markers_order_batches gathered_lateBatches determine_lateBatches
    split rfl due listed (by decide) requested indexed
  exact ⟨determine_lateBatches, due, before, chain⟩

end Plan

end TaskPlanner
