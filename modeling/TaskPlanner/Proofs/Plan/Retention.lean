import TaskPlanner.Proofs.Plan.CycleRejection

/-! Cutting a plan back to its first items, and requesting items anew. The batches still list what
was cut off, but its nodes have forgotten which batch they belong to. An item that comes back in a
later batch is held back by a marker that its old batch comes before. -/

set_option autoImplicit false

namespace TaskPlanner

namespace Plan

variable {plan : Plan} {resolver : Resolver} {forgotten : WorkItem → Prop} {item : WorkItem}
  {submissions : List Submission} {submission : Submission}

/-- The relations of the item are those that the resolver tells, if it has any. -/
def IsRelated (plan : Plan) (resolver : Resolver) (item : WorkItem) : Prop :=
  plan.relations item = {} ∨ item.isMarker = false ∧ ∃ resolution,
    resolver.answer item = .ok resolution ∧ plan.relations item = resolution.relations

/-- What holds of a plan that requests have filled, apart from the batches of items that it may have
forgotten. -/
structure IsFilled (resolver : Resolver) (forgotten : WorkItem → Prop) (plan : Plan) : Prop where
  unfinalized : plan.isFinalized = false
  batched : plan.IsBatchedExcept forgotten
  distinct : plan.index.items.Nodup
  related : ∀ item, plan.IsRelated resolver item

theorem IsFresh.isFilled (fresh : plan.IsFresh) (resolver : Resolver) :
    plan.IsFilled resolver fun _ => False where
  unfinalized := fresh.unfinalized
  batched := isBatched_iff.mp fresh.isBatched
  distinct := by
    rw [fresh.items_index]
    exact List.nodup_nil
  related item := .inl (fresh.clean item).relations

theorem IsRelated.finalizers_unmarked (related : plan.IsRelated resolver item)
    (avoids : resolver.AvoidsMarkers) :
    ∀ other ∈ (plan.relations item).finalizers, other.isMarker = false := by
  intro other member
  rcases related with none | ⟨_, resolution, answered, same⟩
  · rw [none] at member
    cases member
  · rw [same] at member
    exact avoids item resolution answered other (List.mem_append_right _ member)

/-! ## Requests -/

theorem IsFilled.prepare (filled : plan.IsFilled resolver forgotten)
    (unmarked : ∀ item ∈ submission.requested, item.isMarker = false) :
    (plan.prepare submission).IsFilled resolver forgotten := by
  have same := sameFindings_prepare plan submission
  constructor
  · rw [same.isFinalized]
    exact filled.unfinalized
  · exact filled.batched.prepare unmarked
  · rw [same.index]
    exact filled.distinct
  · intro item
    unfold IsRelated
    rw [same.relations]
    exact filled.related item

end Plan

namespace Walk

variable {resolver : Resolver} {forgotten : WorkItem → Prop} {walk next : Walk}

theorem Moves.isRelated (moves : Moves resolver walk next)
    (related : ∀ item, walk.plan.IsRelated resolver item)
    (unmarked : ∀ visit ∈ walk.queue, visit.item.isMarker = false) (item : WorkItem) :
    next.plan.IsRelated resolver item := by
  cases moves with
  | drop => exact related item
  | setAside =>
      unfold Plan.IsRelated
      rw [Plan.relations_setAside]
      exact related item
  | @leave visit =>
      show (walk.plan.enroll visit.item).IsRelated resolver item
      unfold Plan.IsRelated
      rw [Plan.relations_enroll]
      exact related item
  | @descend visit rest resolution front _ _ _ answered =>
      show ((walk.plan.inquire visit.item).adopt visit.item resolution).IsRelated resolver item
      unfold Plan.IsRelated
      rw [Plan.relations_adopt_inquire]
      split
      next same =>
        rw [same]
        exact .inr ⟨unmarked visit (front ▸ List.mem_cons_self), resolution, answered, rfl⟩
      next => exact related item

/-- A resolver that avoids markers never makes a walk visit one. -/
theorem Moves.unmarked (moves : Moves resolver walk next) (avoids : resolver.AvoidsMarkers)
    (finalizers : ∀ item, ∀ other ∈ (walk.plan.relations item).finalizers, other.isMarker = false)
    (unmarked : ∀ visit ∈ walk.queue, visit.item.isMarker = false) :
    ∀ visit ∈ next.queue, visit.item.isMarker = false := by
  intro other member
  cases moves with
  | drop front => exact unmarked other (front ▸ List.mem_cons_of_mem _ member)
  | setAside front => exact unmarked other (front ▸ List.mem_cons_of_mem _ member)
  | @leave visit rest front =>
      rcases List.mem_append.mp member with ahead | behind
      · obtain ⟨finalizer, listed, rfl⟩ := List.mem_map.mp (List.mem_reverse.mp ahead)
        have finalizes := (List.mem_filter.mp listed).1
        rw [Plan.relations_enroll] at finalizes
        exact finalizers visit.item finalizer finalizes
      · exact unmarked other (front ▸ List.mem_cons_of_mem _ behind)
  | @descend visit _ resolution _ _ _ _ answered =>
      rcases List.mem_append.mp member with ahead | behind
      · obtain ⟨dependency, listed, rfl⟩ := List.mem_map.mp ahead
        exact avoids visit.item resolution answered dependency
          (resolution.dependencies_subset_mentioned (List.mem_filter.mp listed).1)
      · exact unmarked other behind

theorem Moves.isFilled (moves : Moves resolver walk next)
    (filled : walk.plan.IsFilled resolver forgotten)
    (unmarked : ∀ visit ∈ walk.queue, visit.item.isMarker = false) :
    next.plan.IsFilled resolver forgotten where
  unfinalized := by
    rw [moves.keepsRequests]
    exact filled.unfinalized
  batched := filled.batched.of_dueBy moves.batches_eq fun _ _ _ => moves.dueBy
  distinct := moves.distinct filled.distinct
  related := moves.isRelated filled.related unmarked

theorem Reaches.isFilled {last : Walk} (reaches : Reaches resolver walk last)
    (avoids : resolver.AvoidsMarkers) (filled : walk.plan.IsFilled resolver forgotten)
    (unmarked : ∀ visit ∈ walk.queue, visit.item.isMarker = false) :
    last.plan.IsFilled resolver forgotten ∧
      ∀ visit ∈ last.queue, visit.item.isMarker = false := by
  induction reaches with
  | refl => exact ⟨filled, unmarked⟩
  | tail _ moves ih =>
      exact ⟨moves.isFilled ih.1 ih.2,
        moves.unmarked avoids (fun item => (ih.1.related item).finalizers_unmarked avoids) ih.2⟩

end Walk

namespace Plan

variable {plan : Plan} {resolver : Resolver} {forgotten : WorkItem → Prop} {item : WorkItem}
  {submissions : List Submission} {submission : Submission}

theorem IsFilled.take (filled : plan.IsFilled resolver forgotten)
    (avoids : resolver.AvoidsMarkers)
    (unmarked : ∀ item ∈ submission.requested, item.isMarker = false)
    (taken : (plan.take resolver submission).result = .ok ()) :
    (plan.take resolver submission).plan.IsFilled resolver forgotten ∧
      (plan.take resolver submission).plan.needsOrdering = true := by
  obtain ⟨last, reaches, _, same⟩ := exists_last_of_take taken
  rw [same]
  constructor
  · refine (reaches.isFilled avoids (filled.prepare unmarked) ?_).1
    intro visit member
    exact unmarked visit.item (Submission.mem_visits.mp member).1
  · rw [show last.plan.needsOrdering = (plan.prepare submission).needsOrdering by
      rw [reaches.keepsRequests]]
    exact needsOrdering_prepare plan submission

theorem IsFilled.takeAll (filled : plan.IsFilled resolver forgotten)
    (avoids : resolver.AvoidsMarkers)
    (unmarked : ∀ submission ∈ submissions, ∀ item ∈ submission.requested, item.isMarker = false)
    (taken : (Plan.takeAll resolver submissions plan).result = .ok ()) :
    (Plan.takeAll resolver submissions plan).plan.IsFilled resolver forgotten := by
  refine @takeAll_induction _ _ [] _ (fun _ other => other.IsFilled resolver forgotten) ?_ filled taken
  intro _ _ submission member before succeeded
  exact (before.take avoids (unmarked submission member) succeeded).1

/-! ## Cutting back -/

/-- Cutting the plan back to its first `count` items drops an item that was requested. -/
def Drops (plan : Plan) (count : Nat) (item : WorkItem) : Prop :=
  item ∈ plan.index.beyond count ∧ ∃ batch ∈ plan.batches.batches, item ∈ batch.entries

/-- The plan without the items from position `count` on. -/
def shortened (plan : Plan) (count : Nat) : Plan :=
  { plan with
    index := plan.index.keepFirst count
    catalog := plan.catalog.updateAll (plan.index.beyond count) Node.reset
    needsOrdering := true }

theorem retainFirst_eq (unfinalized : plan.isFinalized = false) (count : Nat) :
    plan.retainFirst count =
      ⟨.ok (), if (plan.index.beyond count).isEmpty then plan else plan.shortened count⟩ := by
  unfold Plan.retainFirst
  rw [if_neg (by simp [unfinalized])]
  dsimp only
  split
  next => rfl
  next => rfl

theorem IsFilled.shortened (filled : plan.IsFilled resolver fun _ => False) (count : Nat) :
    (plan.shortened count).IsFilled resolver (plan.Drops count) := by
  constructor
  · exact filled.unfinalized
  · constructor
    · exact filled.batched.ascending
    · exact filled.batched.unmarked
    · intro batch member entry requested kept
      have absent : entry ∉ plan.index.beyond count :=
        fun removed => kept ⟨removed, batch, member, requested⟩
      show ((plan.catalog.updateAll (plan.index.beyond count) Node.reset).node entry).DueBy _
      rw [Catalog.node_updateAll_of_not_mem absent]
      exact filled.batched.joined batch member entry requested id
  · exact filled.distinct.sublist (List.take_sublist count _)
  · intro item
    have relations : (plan.shortened count).relations item = {} ∨
        (plan.shortened count).relations item = plan.relations item :=
      Catalog.updateAll_keeps
        (fun node => node.relations = {} ∨ node.relations = plan.relations item)
        (fun _ _ _ => .inl rfl) (.inr rfl)
    refine relations.elim .inl fun same => ?_
    unfold IsRelated
    rw [same]
    exact filled.related item

theorem IsFilled.retainFirst (filled : plan.IsFilled resolver fun _ => False) (count : Nat) :
    (plan.retainFirst count).plan.IsFilled resolver (plan.Drops count) := by
  rw [retainFirst_eq filled.unfinalized]
  dsimp only
  split
  next =>
    exact ⟨filled.unfinalized, ⟨filled.batched.ascending, filled.batched.unmarked,
      fun batch member entry requested _ =>
        filled.batched.joined batch member entry requested id⟩, filled.distinct, filled.related⟩
  next => exact filled.shortened count

/-! ## Ordering -/

theorem IsFilled.orders_of_adjacent (filled : plan.IsFilled resolver forgotten)
    (avoids : resolver.AvoidsMarkers) {source target : WorkItem}
    (adjacent : plan.toInventory.withMarkers.relationGraph.Adjacent source target) :
    resolver.Orders source target ∧ source.isMarker = false ∧ target.isMarker = false := by
  have marks := plan.toInventory.marks_withMarkers
  have relations : ∀ item, plan.toInventory.withMarkers.relations item = plan.relations item :=
    marks.relations
  obtain ⟨_, _, dependency | finalizer⟩ := Inventory.adjacent_relationGraph.mp adjacent
  · rw [relations] at dependency
    rcases filled.related target with none | ⟨unmarked, resolution, answered, same⟩
    · rw [none] at dependency
      cases dependency
    · rw [same] at dependency
      exact ⟨.inl ⟨resolution, answered, dependency⟩, avoids target resolution answered source
        (resolution.dependencies_subset_mentioned dependency), unmarked⟩
  · rw [relations] at finalizer
    have targetUnmarked := (filled.related source).finalizers_unmarked avoids target finalizer
    rcases filled.related source with none | ⟨unmarked, resolution, answered, same⟩
    · rw [none] at finalizer
      cases finalizer
    · rw [same] at finalizer
      exact ⟨.inr ⟨resolution, answered, finalizer⟩, unmarked, targetUnmarked⟩

/-- If nothing that the resolver orders is cyclic, only overtaken items keep a plan from being put
in order. -/
theorem IsFilled.determine_iff (filled : plan.IsFilled resolver forgotten)
    (avoids : resolver.AvoidsMarkers)
    (acyclic : ∀ item, ¬ Relation.TransGen resolver.Orders item item)
    (ordering : plan.needsOrdering = true) :
    (∃ schedule, plan.determine.result = .ok schedule) ↔
      ¬ plan.toInventory.withMarkers.IsOvertaken := by
  have marks := plan.toInventory.marks_withMarkers
  have batches : plan.toInventory.withMarkers.batches = plan.batches := marks.batches
  have ascending : plan.toInventory.withMarkers.batches.IsAscending := by
    rw [batches]
    exact filled.batched.ascending
  have apart : plan.toInventory.withMarkers.MarkersApart := by
    constructor
    · rw [batches]
      exact filled.batched.unmarked
    · intro source target adjacent
      exact (filled.orders_of_adjacent avoids adjacent).2
  have related : plan.toInventory.withMarkers.relationGraph.Acyclic := by
    intro item reaches
    refine acyclic item (Relation.TransGen.mono ?_ _ _ (Graph.reaches_iff_transGen.mp reaches))
    intro source target adjacent
    exact (filled.orders_of_adjacent avoids adjacent).1
  rw [exists_determine_iff ordering,
    Inventory.exists_schedule_iff plan.toInventory.marker_mem_withMarkers
      (marks.distinct filled.distinct),
    Inventory.acyclic_constraintGraph_iff ascending apart]
  exact and_iff_right related

/-- Only a forgotten item can be overtaken, and only if it was found again. -/
theorem IsFilled.not_isOvertaken (filled : plan.IsFilled resolver forgotten)
    (absent : ∀ item, forgotten item → item ∉ plan.index) :
    ¬ plan.toInventory.withMarkers.IsOvertaken := by
  have marks := plan.toInventory.marks_withMarkers
  rintro ⟨ordinal, _, entry, listed, indexed, later, order, behind⟩
  obtain ⟨batch, member, rfl, requested⟩ := Batches.mem_of_mem_entriesOf listed
  rw [show plan.toInventory.withMarkers.batches = plan.batches from marks.batches] at member
  have present : entry ∈ plan.index := by
    rcases (marks.index entry).mp indexed with old | ⟨marked, _, same⟩
    · exact old
    · have unmarked := filled.batched.unmarked batch member entry requested
      rw [same] at unmarked
      cases unmarked
  have due := filled.batched.joined batch member entry requested
    fun lost => absent entry lost present
  exact Inventory.not_isBehind_of_dueBy indexed (marks.dueBy entry _ due) order behind

/-- Cut the plan back to its first `count` items, and request tasks in the next batch. -/
def replan (resolver : Resolver) (plan : Plan) (count : Nat) (tasks : List String) : Attempt Unit :=
  (plan.retainFirst count).plan.submit resolver tasks none

/-- After cutting back and requesting tasks anew, a plan can be put in order if and only if no
requested item is overtaken by a later batch. That is so if no requested item that was cut off
is found again. -/
theorem replan_determine_iff (fresh : plan.IsFresh) (avoids : resolver.AvoidsMarkers)
    (acyclic : ∀ item, ¬ Relation.TransGen resolver.Orders item item)
    (unmarked : ∀ submission ∈ submissions, ∀ item ∈ submission.requested, item.isMarker = false)
    (taken : (takeAll resolver submissions plan).result = .ok ()) {count : Nat}
    {tasks : List String}
    (resubmitted : ((takeAll resolver submissions plan).plan.replan resolver count tasks).result =
      .ok ()) :
    ((∃ schedule, ((takeAll resolver submissions plan).plan.replan resolver count
        tasks).plan.determine.result = .ok schedule) ↔
      ¬ ((takeAll resolver submissions plan).plan.replan resolver count
        tasks).plan.toInventory.withMarkers.IsOvertaken) ∧
    ((∀ item, (takeAll resolver submissions plan).plan.Drops count item →
        item ∉ ((takeAll resolver submissions plan).plan.replan resolver count tasks).plan.index) →
      ∃ schedule, ((takeAll resolver submissions plan).plan.replan resolver count
        tasks).plan.determine.result = .ok schedule) := by
  have filled := ((fresh.isFilled resolver).takeAll avoids unmarked taken).retainFirst count
  obtain ⟨next, ordering⟩ :=
    filled.take avoids (Submission.tasks_unmarked tasks none) resubmitted
  have equivalence := next.determine_iff avoids acyclic ordering
  exact ⟨equivalence, fun absent => equivalence.mpr (next.not_isOvertaken absent)⟩

/-! ## An example -/

theorem avoidsMarkers_exampleResolver : exampleResolver.AvoidsMarkers :=
  fun item resolution answered other mentioned =>
    isReliable_exampleResolver.unmarked item resolution answered other mentioned

/-- Compiling and the documentation come first in the example build. -/
def exampleStage (item : WorkItem) : Nat :=
  if item = .task "test" ∨ item = .task "cleanup" then 1 else 0

theorem exampleStage_lt_of_orders {source target : WorkItem}
    (orders : exampleResolver.Orders source target) :
    exampleStage source < exampleStage target := by
  rcases orders with ⟨_, answered, dependency⟩ | ⟨_, answered, finalizer⟩
  · cases answered
    unfold exampleAnswer at dependency
    split at dependency
    next same =>
      rw [same]
      rcases List.mem_cons.mp dependency with rfl | member
      · decide
      · cases List.mem_singleton.mp member
        decide
    next =>
      split at dependency
      next => cases dependency
      next => cases dependency
  · cases answered
    unfold exampleAnswer at finalizer
    split at finalizer
    next => cases finalizer
    next =>
      split at finalizer
      next same =>
        rw [same]
        cases List.mem_singleton.mp finalizer
        decide
      next => cases finalizer

theorem acyclic_exampleResolver (item : WorkItem) :
    ¬ Relation.TransGen exampleResolver.Orders item item := by
  intro cycle
  have climbs : Relation.TransGen (· < ·) (exampleStage item) (exampleStage item) :=
    cycle.lift exampleStage fun _ _ => exampleStage_lt_of_orders
  rw [Relation.transGen_eq_self] at climbs
  exact Nat.lt_irrefl _ climbs

/-- Two batches of the example build, compiling and then the tests. -/
def exampleBatches : List Submission := [.tasks ["compile"] none, .tasks ["test"] none]

theorem replan_determine_example :
    ∃ schedule, ((takeAll exampleResolver exampleBatches examplePlan).plan.replan exampleResolver 2
      ["compile"]).plan.determine.result = .ok schedule := by
  have fresh : examplePlan.IsFresh := isFresh_new _ _
  have unmarked : ∀ submission ∈ exampleBatches, ∀ item ∈ submission.requested,
      item.isMarker = false :=
    List.forall_mem_cons.mpr ⟨Submission.tasks_unmarked _ _,
      List.forall_mem_singleton.mpr (Submission.tasks_unmarked _ _)⟩
  refine (replan_determine_iff fresh avoidsMarkers_exampleResolver acyclic_exampleResolver unmarked
    rfl rfl).2 fun item dropped => ?_
  -- Only the tests are cut off, and compiling does not bring them back.
  cases List.mem_singleton.mp dropped.1
  decide

/-- If compiling is cut off and requested again, the marker of the second batch waits for it, since
the first batch still lists it, and as an item of the second batch it waits for the marker. -/
theorem replan_determine_fails :
    exampleResolver.AvoidsMarkers ∧
      (∀ item, ¬ Relation.TransGen exampleResolver.Orders item item) ∧
      (takeAll exampleResolver [.tasks ["compile"] none] examplePlan).result = .ok () ∧
      ((takeAll exampleResolver [.tasks ["compile"] none] examplePlan).plan.replan exampleResolver 0
        ["compile"]).result = .ok () ∧
      ¬ ∃ schedule, ((takeAll exampleResolver [.tasks ["compile"] none] examplePlan).plan.replan
        exampleResolver 0 ["compile"]).plan.determine.result = .ok schedule := by
  refine ⟨avoidsMarkers_exampleResolver, acyclic_exampleResolver, rfl, rfl, ?_⟩
  rintro ⟨_, determined⟩
  cases determined

end Plan

end TaskPlanner
