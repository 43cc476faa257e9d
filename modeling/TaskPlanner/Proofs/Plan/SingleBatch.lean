import TaskPlanner.Proofs.Discovery.PostOrder
import TaskPlanner.Proofs.Graph.Urgency
import TaskPlanner.Proofs.Plan.CycleRejection

/-! Plans with one batch and without finalizers. They are run in the order of their discovery: the
index is in post-order already, no marker is put into it, and the linearization of a graph whose
vertices stand behind what they wait for changes nothing. -/

set_option autoImplicit false

namespace TaskPlanner

/-! ## Inventories with one batch -/

/-- There is no batch but this one. -/
def Batches.HasOnly (registry : Batches) (ordinal : Ordinal) : Prop :=
  registry.ordinals = [] ∨ registry.ordinals = [ordinal]

theorem Batches.HasOnly.addEntry {registry : Batches} {ordinal : Ordinal}
    (only : registry.HasOnly ordinal) (item : WorkItem) :
    (registry.addEntry ordinal item).HasOnly ordinal := by
  right
  obtain ⟨batches⟩ := registry
  cases batches with
  | nil => rfl
  | cons batch rest =>
      have single : batch.ordinal = ordinal ∧ rest = [] := by
        simpa [HasOnly, ordinals] using only
      obtain ⟨rfl, rfl⟩ := single
      simp [Batches.addEntry, changeIn, ordinals]

namespace Inventory

variable {inventory : Inventory} {ordinal : Ordinal}

theorem markedOrdinals_of_hasOnly (only : inventory.batches.HasOnly ordinal) :
    inventory.markedOrdinals = [] := by
  cases only with
  | inl none => simp [markedOrdinals, none]
  | inr single => simp [markedOrdinals, single]

theorem constraintGraph_of_hasOnly (only : inventory.batches.HasOnly ordinal) :
    inventory.constraintGraph = inventory.relationGraph := by
  have unmarked : inventory.batches.ordinals.tail = [] := markedOrdinals_of_hasOnly only
  have nothing : inventory.batchEdges = [] := by
    simp [batchEdges, Batches.successions, unmarked, markerEdgesAll]
  rw [constraintGraph, nothing, List.foldl_nil]

/-- An inventory whose items stand behind what they wait for is scheduled as it is. -/
theorem schedule_of_respects (only : inventory.batches.HasOnly ordinal)
    (distinct : inventory.index.items.Nodup)
    (respects : inventory.relationGraph.Respects inventory.index.items)
    (unfinalized : ∀ item ∈ inventory.index, (inventory.relations item).finalizers = []) :
    ∃ schedule, inventory.schedule = .ok schedule ∧ schedule.items = inventory.index.items := by
  have graph := constraintGraph_of_hasOnly only
  rw [← vertices_relationGraph] at distinct respects
  have acyclic : inventory.relationGraph.Acyclic := by
    apply respects.acyclic distinct
    intro source target adjacent
    rw [vertices_relationGraph]
    exact (adjacent_relationGraph.mp adjacent).2.1
  have calm : ∀ source target, inventory.relationGraph.Adjacent source target →
      inventory.isUrgent source target = false := by
    intro source target adjacent
    have none := unfinalized source (adjacent_relationGraph.mp adjacent).1
    simp [isUrgent, markedOrdinals_of_hasOnly only, none]
  have ordered : inventory.linearOrder = .ok inventory.index.items := by
    rw [linearOrder_eq_linearize (graph ▸ acyclic), graph,
      Lineup.linearize_of_respects respects distinct calm, vertices_relationGraph]
  unfold schedule
  rw [ordered]
  exact ⟨_, rfl, inventory.map_item_scheduledNode _ _⟩

end Inventory

namespace Plan

variable {base plan : Plan} {resolver : Resolver} {entries : List WorkItem} {ordinal : Ordinal}
  {submission : Submission} {submissions : List Submission} {item : WorkItem}

/-! ## The order of discovery -/

theorem IsFresh.isPostOrdered (fresh : base.IsFresh) (resolver : Resolver) :
    base.IsPostOrdered resolver := by
  intro earlier item later split
  rw [fresh.items_index] at split
  simp at split

/-- A request that succeeds adds to the index in post-order. -/
theorem IsPostOrdered.take (ordered : plan.IsPostOrdered resolver)
    (lacks : resolver.LacksFinalizers) (explored : Explored base resolver entries plan)
    (taken : (plan.take resolver submission).result = .ok ()) :
    (plan.take resolver submission).plan.IsPostOrdered resolver := by
  have same := sameFindings_prepare plan submission
  have out : ∀ item, plan.LeavesOut item → (plan.prepare submission).LeavesOut item := by
    intro item out
    rwa [LeavesOut, same.filtered, same.cannotRun]
  have ends := (plan.prepare submission).ends_expand resolver submission.visits
  rw [← take_eq (unfinalized_of_taken taken)] at ends
  apply ends.isPostOrdered lacks (explored.prepare submission)
    (disciplined_prepare plan resolver submission) _ taken
  constructor
  · exact .inl rfl
  · intro item inside
    cases inside
  · exact ordered.of_index_eq same.index out

theorem Explored.not_leavesOut (explored : Explored base resolver entries plan)
    (indexed : item ∈ plan.index) : ¬ plan.LeavesOut item := by
  have admits := (explored.sound.needed item (.inl indexed)).admits
  intro out
  cases out with
  | inl rejected =>
      have refused := (explored.sound.rejected item rejected).1
      rw [admits.1] at refused
      cases refused
  | inr barred =>
      rw [explored.consistent.cannotRun, admits.2] at barred
      cases barred

/-- The dependencies that are in the index stand in front of what depends on them. -/
theorem IsPostOrdered.mem_earlier (ordered : plan.IsPostOrdered resolver)
    (explored : Explored base resolver entries plan) {earlier later : List WorkItem}
    {dependency : WorkItem} (split : plan.index.items = earlier ++ item :: later)
    (related : dependency ∈ (plan.relations item).dependencies)
    (indexed : dependency ∈ plan.index) : dependency ∈ earlier := by
  have listed : item ∈ plan.index := by
    rw [ItemSet.mem_def, split]
    simp
  obtain ⟨resolution, answered, same⟩ := explored.consistent.relations item (.inl listed)
  have orders : resolver.Orders dependency item := .inl ⟨resolution, answered, same ▸ related⟩
  exact (ordered earlier item later split dependency orders).resolve_right
    (explored.not_leavesOut indexed)

/-- All requests are for the batch `ordinal`. -/
def GoesTo (resolver : Resolver) (ordinal : Ordinal) : List Submission → Plan → Prop
  | [], _ => True
  | submission :: rest, plan =>
      plan.ordinalFor submission = ordinal ∧
        GoesTo resolver ordinal rest (plan.take resolver submission).plan

/-- A plan that has only taken requests for one batch, from a resolver without finalizers. -/
structure InDiscoveryOrder (base : Plan) (resolver : Resolver) (ordinal : Ordinal)
    (entries : List WorkItem) (plan : Plan) : Prop where
  explored : Explored base resolver entries plan
  unfinalized : plan.isFinalized = false
  ordered : plan.IsPostOrdered resolver
  only : plan.batches.HasOnly ordinal
  pending : plan.needsOrdering = true ∨ plan.index.items = [] ∧ plan.schedule? = none

theorem IsFresh.inDiscoveryOrder (fresh : base.IsFresh) (unscheduled : base.schedule? = none)
    (resolver : Resolver) (ordinal : Ordinal) :
    InDiscoveryOrder base resolver ordinal [] base where
  explored := fresh.explored resolver
  unfinalized := fresh.unfinalized
  ordered := fresh.isPostOrdered resolver
  only := by
    left
    rw [fresh.inventory]
    rfl
  pending := .inr ⟨fresh.items_index, unscheduled⟩

theorem InDiscoveryOrder.take (inOrder : InDiscoveryOrder base resolver ordinal entries plan)
    (lacks : resolver.LacksFinalizers) (same : plan.ordinalFor submission = ordinal)
    (taken : (plan.take resolver submission).result = .ok ()) :
    InDiscoveryOrder base resolver ordinal (entries ++ submission.requested)
      (plan.take resolver submission).plan where
  explored := inOrder.explored.take taken
  unfinalized := take_isFinalized resolver inOrder.unfinalized submission
  ordered := inOrder.ordered.take lacks inOrder.explored taken
  only := by
    rw [take_keepsRequests resolver inOrder.unfinalized submission]
    apply prepare_induction (fun other => other.batches.HasOnly ordinal) inOrder.only
    · exact fun _ _ => id
    · exact fun _ _ => id
    · intro other item _ only
      exact same ▸ only.addEntry item
  pending := .inl (needsOrdering_take inOrder.unfinalized resolver submission)

theorem InDiscoveryOrder.takeAll (inOrder : InDiscoveryOrder base resolver ordinal entries plan)
    (lacks : resolver.LacksFinalizers) (goes : GoesTo resolver ordinal submissions plan)
    (taken : (Plan.takeAll resolver submissions plan).result = .ok ()) :
    InDiscoveryOrder base resolver ordinal (entries ++ submissions.flatMap Submission.requested)
      (Plan.takeAll resolver submissions plan).plan := by
  induction submissions generalizing plan entries with
  | nil => simpa [Plan.takeAll] using inOrder
  | cons submission rest ih =>
      simp only [Plan.takeAll] at taken ⊢
      cases outcome : (plan.take resolver submission).result with
      | error error => simp [outcome] at taken
      | ok =>
          rw [outcome] at taken
          rw [List.flatMap_cons, ← List.append_assoc]
          exact ih (inOrder.take lacks goes.1 outcome) goes.2 taken

/-! ## The order of the schedule -/

theorem InDiscoveryOrder.respects (inOrder : InDiscoveryOrder base resolver ordinal entries plan)
    (unfinalized : ∀ item ∈ plan.index, (plan.relations item).finalizers = []) :
    plan.toInventory.relationGraph.Respects plan.index.items := by
  intro earlier item later split source adjacent
  obtain ⟨listed, _, related⟩ := Inventory.adjacent_relationGraph.mp adjacent
  cases related with
  | inl dependency => exact inOrder.ordered.mem_earlier inOrder.explored split dependency listed
  | inr finalizer => simp [unfinalized source listed] at finalizer

theorem InDiscoveryOrder.determine (inOrder : InDiscoveryOrder base resolver ordinal entries plan)
    (lacks : resolver.LacksFinalizers) :
    ∃ schedule, plan.determine.result = .ok schedule ∧ schedule.items = plan.index.items ∧
      plan.determine.plan.index = plan.index := by
  cases ordering : plan.needsOrdering with
  | true =>
      have marked : plan.toInventory.withMarkers = plan.toInventory := by
        rw [Inventory.withMarkers, Inventory.markedOrdinals_of_hasOnly inOrder.only, List.foldl_nil]
      have unfinalized : ∀ item ∈ plan.index, (plan.relations item).finalizers = [] := by
        intro item listed
        obtain ⟨resolution, answered, same⟩ :=
          inOrder.explored.consistent.relations item (.inl listed)
        exact same ▸ lacks item resolution answered
      obtain ⟨schedule, scheduled, items⟩ := Inventory.schedule_of_respects inOrder.only
        inOrder.explored.consistent.distinct (inOrder.respects unfinalized) unfinalized
      refine ⟨schedule, ?_, items, ?_⟩
      · rw [result_determine ordering, marked, scheduled]
        rfl
      · rw [toInventory_determine_of_needsOrdering ordering, marked]
  | false =>
      -- Nothing was requested.
      obtain ⟨empty, unscheduled⟩ := inOrder.pending.resolve_left (by simp [ordering])
      exact ⟨{}, by simp [Plan.determine, ordering, unscheduled], empty.symm,
        by simp [Plan.determine, ordering]⟩

/-- Without finalizers and with a single batch, the index holds every dependency in front of what
depends on it, and it is the order in which the plan runs. -/
theorem takeAll_determine_discovery (fresh : plan.IsFresh) (unscheduled : plan.schedule? = none)
    (lacks : resolver.LacksFinalizers) (goes : GoesTo resolver ordinal submissions plan)
    (taken : (takeAll resolver submissions plan).result = .ok ()) :
    let last := (takeAll resolver submissions plan).plan
    (∀ earlier item later, last.index.items = earlier ++ item :: later →
      ∀ dependency ∈ (last.relations item).dependencies, dependency ∈ last.index →
        dependency ∈ earlier) ∧
    ∃ schedule, last.determine.result = .ok schedule ∧ last.determine.plan.index = last.index ∧
      schedule.items = last.index.items ∧
      schedule.order = (last.index.items.filter (!·.isMarker)).map (·.displayName) := by
  intro last
  have inOrder := (fresh.inDiscoveryOrder unscheduled resolver ordinal).takeAll lacks goes taken
  constructor
  · intro earlier item later split dependency related indexed
    exact inOrder.ordered.mem_earlier inOrder.explored split related indexed
  · obtain ⟨schedule, determined, items, index⟩ := inOrder.determine lacks
    refine ⟨schedule, determined, index, items, ?_⟩
    rw [← items]
    simp [Schedule.order, Schedule.items, List.filter_map, Function.comp_def,
      ScheduledNode.isMarker]

/-! ## An example -/

/-- Packaging needs the tests, which need compiling, and the documentation. -/
def packagingSuccessors (item : WorkItem) : List Successor :=
  if item = .task "package" then
    [{ item := .task "test" }, { item := .task "compile" }, { item := .task "document" }]
  else if item = .task "test" then [{ item := .task "compile" }]
  else []

def packagingResolver : Resolver where
  answer item := .ok { successors := packagingSuccessors item }
  mentionable := [.task "test", .task "compile", .task "document"]
  mentioned_subset := by
    intro item resolution answered other mentioned
    cases answered
    simp only [Resolution.mentioned, packagingSuccessors, List.append_nil] at mentioned
    split at mentioned
    · exact mentioned
    · split at mentioned
      · exact List.mem_cons_of_mem _ (List.mem_cons.mpr (.inl (List.mem_singleton.mp mentioned)))
      · cases mentioned

/-- The tests, and then the package in the same batch. -/
def packagingRequests : List Submission :=
  [.tasks ["test"] none, .tasks ["package", "test"] (some .first)]

theorem takeAll_determine_discovery_packaging :
    let last := (takeAll packagingResolver packagingRequests examplePlan).plan
    examplePlan.IsFresh ∧ examplePlan.schedule? = none ∧ packagingResolver.LacksFinalizers ∧
      GoesTo packagingResolver .first packagingRequests examplePlan ∧
      (takeAll packagingResolver packagingRequests examplePlan).result = .ok () ∧
      last.index.items = [.task "compile", .task "test", .task "package"] ∧
      ∃ schedule, last.determine.result = .ok schedule ∧ schedule.items = last.index.items ∧
        schedule.order = ["compile", "test", "package"] := by
  have fresh : examplePlan.IsFresh := isFresh_new _ _
  have lacks : packagingResolver.LacksFinalizers := by
    intro item resolution answered
    cases answered
    rfl
  have goes : GoesTo packagingResolver .first packagingRequests examplePlan := ⟨rfl, rfl, trivial⟩
  have taken : (takeAll packagingResolver packagingRequests examplePlan).result = .ok () := rfl
  obtain ⟨-, schedule, determined, -, items, order⟩ :=
    takeAll_determine_discovery fresh rfl lacks goes taken
  exact ⟨fresh, rfl, lacks, goes, taken, rfl, schedule, determined, items, order⟩

end Plan

end TaskPlanner
