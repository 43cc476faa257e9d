import TaskPlanner.Proofs.Discovery.Cycles
import TaskPlanner.Proofs.Discovery.Reachability
import TaskPlanner.Proofs.Plan.Batching
import TaskPlanner.Proofs.Schedule.Acyclicity

/-! Cycle rejection is exact. Discovery refuses only true cycles, the ordering refuses what is
left of them, and the markers of batches add none. -/

set_option autoImplicit false

namespace TaskPlanner

@[simp] theorem mapError_eq_ok_iff {ε δ α : Type} {change : ε → δ} {result : Except ε α}
    {value : α} : result.mapError change = .ok value ↔ result = .ok value := by
  cases result <;> simp [Except.mapError]

@[simp] theorem mapError_eq_error_iff {ε δ α : Type} {change : ε → δ} {result : Except ε α}
    {error : δ} : result.mapError change = .error error ↔
      ∃ cause, result = .error cause ∧ change cause = error := by
  cases result <;> simp [Except.mapError]

@[simp] theorem toOption_mapError {ε δ α : Type} {change : ε → δ} {result : Except ε α} :
    (result.mapError change).toOption = result.toOption := by
  cases result <;> rfl

/-- The resolver never mentions a marker. -/
def Resolver.AvoidsMarkers (resolver : Resolver) : Prop :=
  ∀ item resolution, resolver.answer item = .ok resolution →
    ∀ other ∈ resolution.mentioned, other.isMarker = false

theorem Resolver.AvoidsMarkers.of_mentionable {resolver : Resolver}
    (unmarked : ∀ other ∈ resolver.mentionable, other.isMarker = false) : resolver.AvoidsMarkers :=
  fun _ _ answered other mentioned =>
    unmarked other (resolver.mentioned_subset answered other mentioned)

/-- The resolver has an answer for every item but markers, and never mentions a marker. -/
structure Resolver.IsReliable (resolver : Resolver) : Prop where
  answers : ∀ item, item.isMarker = false → ∃ resolution, resolver.answer item = .ok resolution
  unmarked : ∀ item resolution, resolver.answer item = .ok resolution →
    ∀ other ∈ resolution.mentioned, other.isMarker = false

theorem Resolver.AvoidsMarkers.unmarked_of_leads {resolver : Resolver}
    (avoids : resolver.AvoidsMarkers) {source target : WorkItem}
    (leads : resolver.Leads source target) : target.isMarker = false := by
  obtain ⟨resolution, answered, dependency | finalizer⟩ := leads
  · exact avoids source resolution answered target
      (resolution.dependencies_subset_mentioned dependency)
  · exact avoids source resolution answered target (List.mem_append_right _ finalizer)

namespace Plan

variable {plan base : Plan} {resolver : Resolver} {entries : List WorkItem}
  {submissions : List Submission}

theorem Needs.unmarked (avoids : resolver.AvoidsMarkers)
    (requested : ∀ item ∈ entries, item.isMarker = false) {item : WorkItem}
    (needs : base.Needs resolver entries item) : item.isMarker = false := by
  cases needs with
  | entry member _ => exact requested item member
  | successor _ leads _ => exact avoids.unmarked_of_leads leads

/-- What holds of a plan that has taken requests for `entries` and nothing else. -/
structure Collects (base : Plan) (resolver : Resolver) (entries : List WorkItem) (plan : Plan) :
    Prop where
  explored : Explored base resolver entries plan
  isBatched : plan.IsBatched
  unfinalized : plan.isFinalized = false
  requested : ∀ item ∈ entries, item.isMarker = false

theorem IsFresh.collects (fresh : base.IsFresh) (resolver : Resolver) :
    Collects base resolver [] base :=
  ⟨fresh.explored resolver, fresh.isBatched, fresh.unfinalized, by simp⟩

theorem needsOrdering_prepare (plan : Plan) (submission : Submission) :
    (plan.prepare submission).needsOrdering = true := by
  obtain ⟨items, same⟩ := plan.exists_prepare_eq submission
  rw [same]
  exact foldl_request_induction (fun other => other.needsOrdering = true) (fun _ _ _ => id) rfl

theorem needsOrdering_take (unfinalized : plan.isFinalized = false) (resolver : Resolver)
    (submission : Submission) : (plan.take resolver submission).plan.needsOrdering = true := by
  rw [take_keepsRequests resolver unfinalized submission]
  exact needsOrdering_prepare plan submission

/-- A walk begins with what was requested. -/
theorem disciplined_prepare (plan : Plan) (resolver : Resolver) (submission : Submission) :
    Walk.Disciplined resolver { plan := plan.prepare submission, queue := submission.visits } := by
  refine ⟨⟨nofun, List.nil_subset _, List.nodup_nil⟩, rfl, .bottom fun visit member => ?_⟩
  rw [(Submission.mem_visits.mp member).2]
  exact Link.noConfusion

/-- A request about which the resolver knows everything fails only if what it needs, together with
the earlier ones, is cyclic. -/
theorem Collects.take (collects : Collects base resolver entries plan) {submission : Submission}
    (answers : ∀ item, base.Needs resolver (entries ++ submission.requested) item →
      ∃ resolution, resolver.answer item = .ok resolution)
    (unmarked : ∀ item ∈ submission.requested, item.isMarker = false) :
    (∃ report, (plan.take resolver submission).result = .error (.cycle report) ∧
      ∃ item, Relation.TransGen
        (base.Precedes resolver (entries ++ submission.requested)) item item) ∨
    (plan.take resolver submission).result = .ok () ∧
      Collects base resolver (entries ++ submission.requested)
        (plan.take resolver submission).plan ∧
      (plan.take resolver submission).plan.needsOrdering = true := by
  have requested : ∀ item ∈ entries ++ submission.requested, item.isMarker = false := by
    intro item member
    rcases List.mem_append.mp member with earlier | now
    · exact collects.requested item earlier
    · exact unmarked item now
  have unfinalized := take_isFinalized resolver collects.unfinalized submission
  obtain ⟨last, reaches, explores, stops⟩ :=
    collects.explored.exists_last_take collects.unfinalized submission
  have disciplined : Walk.Disciplined resolver last :=
    reaches.disciplined (disciplined_prepare plan resolver submission)
  generalize plan.take resolver submission = attempt at stops unfinalized ⊢
  cases stops with
  | done ended =>
      refine .inr ⟨rfl, ⟨explored_of_explores explores ended,
        reaches.isBatched (collects.isBatched.prepare unmarked), unfinalized, requested⟩, ?_⟩
      rw [show last.plan.needsOrdering = (plan.prepare submission).needsOrdering by
        rw [reaches.keepsRequests]]
      exact needsOrdering_prepare plan submission
  | @unresolved visit rest fault front isOpen accepted outside failed =>
      have wants := explores.sound.wanted visit.item
        (Walk.queued_eq front ▸ List.mem_cons_self)
      have needs := wants.needs (explores.consistent.admits isOpen accepted)
      obtain ⟨resolution, answered⟩ := answers visit.item needs
      rw [failed] at answered
      cases answered
  | cycle front isOpen accepted outside answered closed =>
      exact .inl ⟨_, rfl,
        explores.exists_cycle disciplined front isOpen accepted outside answered closed⟩

/-- Requests fail only if what they need is cyclic. -/
theorem Collects.takeAll (collects : Collects base resolver entries plan)
    (reliable : resolver.IsReliable)
    (unmarked : ∀ submission ∈ submissions, ∀ item ∈ submission.requested, item.isMarker = false) :
    (∃ report, (Plan.takeAll resolver submissions plan).result = .error (.cycle report) ∧
      ∃ item, Relation.TransGen (base.Precedes resolver
        (entries ++ submissions.flatMap Submission.requested)) item item) ∨
    (Plan.takeAll resolver submissions plan).result = .ok () ∧
      Collects base resolver (entries ++ submissions.flatMap Submission.requested)
        (Plan.takeAll resolver submissions plan).plan ∧
      (plan.needsOrdering = true ∨ submissions ≠ [] →
        (Plan.takeAll resolver submissions plan).plan.needsOrdering = true) := by
  induction submissions generalizing plan entries with
  | nil =>
      rw [List.flatMap_nil, List.append_nil]
      exact .inr ⟨rfl, collects, fun either => either.resolve_right fun some => some rfl⟩
  | cons submission rest ih =>
      rw [List.flatMap_cons, ← List.append_assoc]
      unfold Plan.takeAll
      dsimp only
      have now := unmarked submission List.mem_cons_self
      have answers : ∀ item, base.Needs resolver (entries ++ submission.requested) item →
          ∃ resolution, resolver.answer item = .ok resolution := fun item needs =>
        reliable.answers item (needs.unmarked reliable.unmarked
          (List.forall_mem_append.mpr ⟨collects.requested, now⟩))
      rcases collects.take answers now with
        ⟨report, failed, item, cyclic⟩ | ⟨succeeded, next, ordering⟩
      · rw [failed]
        refine .inl ⟨report, rfl, item, ?_⟩
        exact Relation.TransGen.mono
          (fun source target => Precedes.mono (List.subset_append_left _ _)) _ _ cyclic
      · rw [succeeded]
        have later : ∀ other ∈ rest, ∀ item ∈ other.requested, item.isMarker = false :=
          fun other member => unmarked other (List.mem_cons_of_mem _ member)
        refine (ih next later).imp id ?_
        rintro ⟨taken, last, kept⟩
        exact ⟨taken, last, fun _ => kept (.inl ordering)⟩

/-! ## Ordering what was found -/

theorem Collects.mem_index_iff (collects : Collects base resolver entries plan) {item : WorkItem} :
    item ∈ plan.index ↔ base.Needs resolver entries item :=
  collects.explored.mem_index_iff rfl

/-- The relations of an item of the plan are those that the resolver tells, and only items of the
plan have any. -/
theorem Collects.relations_cases (collects : Collects base resolver entries plan)
    (item : WorkItem) :
    (base.Needs resolver entries item ∧ ∃ resolution, resolver.answer item = .ok resolution ∧
      plan.relations item = resolution.relations) ∨ plan.relations item = {} := by
  by_cases listed : item ∈ plan.index
  · exact .inl ⟨collects.mem_index_iff.mp listed,
      collects.explored.consistent.relations item (.inl listed)⟩
  · exact .inr (collects.explored.consistent.unrelated item listed List.not_mem_nil)

theorem Collects.relations_eq (collects : Collects base resolver entries plan) {item : WorkItem}
    (needs : base.Needs resolver entries item) {resolution : Resolution}
    (answered : resolver.answer item = .ok resolution) :
    plan.relations item = resolution.relations :=
  collects.explored.consistent.relations_eq (.inl (collects.mem_index_iff.mpr needs)) answered

/-- Together with the markers, the relations of a plan are exactly what its requests ask for. -/
theorem Collects.adjacent_iff (collects : Collects base resolver entries plan)
    (avoids : resolver.AvoidsMarkers) {source target : WorkItem} :
    plan.toInventory.withMarkers.relationGraph.Adjacent source target ↔
      base.Precedes resolver entries source target := by
  have marks := Inventory.marks_foldl_addMarker plan.markedOrdinals plan.toInventory
  have indexed : ∀ item, item.isMarker = false → item ∈ plan.toInventory.withMarkers.index →
      base.Needs resolver entries item := by
    intro item unmarked listed
    rcases (marks.index item).mp listed with old | ⟨ordinal, _, rfl⟩
    · exact collects.mem_index_iff.mp old
    · cases unmarked
  have listed : ∀ item, base.Needs resolver entries item →
      item ∈ plan.toInventory.withMarkers.index := fun item needs =>
    (marks.index item).mpr (.inl (collects.mem_index_iff.mpr needs))
  rw [Inventory.adjacent_relationGraph]
  unfold Inventory.Relates
  rw [show plan.toInventory.withMarkers.relations target = plan.relations target from
      marks.relations target,
    show plan.toInventory.withMarkers.relations source = plan.relations source from
      marks.relations source]
  constructor
  · rintro ⟨sourceListed, targetListed, dependency | finalizer⟩
    · rcases collects.relations_cases target with ⟨needs, resolution, answered, related⟩ | unrelated
      · rw [related] at dependency
        have unmarked := avoids.unmarked_of_leads ⟨resolution, answered, .inl dependency⟩
        exact ⟨indexed source unmarked sourceListed, needs, .inl ⟨resolution, answered, dependency⟩⟩
      · rw [unrelated] at dependency
        cases dependency
    · rcases collects.relations_cases source with ⟨needs, resolution, answered, related⟩ | unrelated
      · rw [related] at finalizer
        have unmarked := avoids.unmarked_of_leads ⟨resolution, answered, .inr finalizer⟩
        exact ⟨needs, indexed target unmarked targetListed, .inr ⟨resolution, answered, finalizer⟩⟩
      · rw [unrelated] at finalizer
        cases finalizer
  · rintro ⟨sourceNeeds, targetNeeds, ⟨resolution, answered, dependency⟩ |
      ⟨resolution, answered, finalizer⟩⟩
    · have related := collects.relations_eq targetNeeds answered
      exact ⟨listed source sourceNeeds, listed target targetNeeds, .inl (related ▸ dependency)⟩
    · have related := collects.relations_eq sourceNeeds answered
      exact ⟨listed source sourceNeeds, listed target targetNeeds, .inr (related ▸ finalizer)⟩

theorem Collects.acyclic_iff (collects : Collects base resolver entries plan)
    (avoids : resolver.AvoidsMarkers) :
    plan.toInventory.withMarkers.relationGraph.Acyclic ↔
      ∀ item, ¬ Relation.TransGen (base.Precedes resolver entries) item item := by
  refine forall_congr' fun item => not_congr ?_
  rw [Graph.reaches_iff_transGen]
  exact ⟨Relation.TransGen.mono (fun _ _ => (collects.adjacent_iff avoids).mp) _ _,
    Relation.TransGen.mono (fun _ _ => (collects.adjacent_iff avoids).mpr) _ _⟩

/-- The markers enter a plan that requests have filled without coming between its relations. -/
theorem Collects.exists_schedule (collects : Collects base resolver entries plan)
    (avoids : resolver.AvoidsMarkers)
    (acyclic : ∀ item, ¬ Relation.TransGen (base.Precedes resolver entries) item item) :
    ∃ schedule, plan.toInventory.withMarkers.schedule = .ok schedule := by
  have marks := plan.toInventory.marks_withMarkers
  have batched : plan.toInventory.withMarkers.Batched :=
    collects.isBatched.batched.of_dueBy marks.batches marks.dueBy
  refine batched.exists_schedule ⟨?_, fun source target adjacent => ?_⟩
    plan.toInventory.marker_mem_withMarkers
    (marks.distinct collects.explored.consistent.distinct)
    ((collects.acyclic_iff avoids).mpr acyclic)
  · rw [show plan.toInventory.withMarkers.batches = plan.batches from marks.batches]
    exact collects.isBatched.unmarked
  · obtain ⟨sourceNeeds, targetNeeds, _⟩ := (collects.adjacent_iff avoids).mp adjacent
    exact ⟨sourceNeeds.unmarked avoids collects.requested,
      targetNeeds.unmarked avoids collects.requested⟩

/-- A plan to which something was added is put in order anew. -/
theorem result_determine (ordering : plan.needsOrdering = true) :
    plan.determine.result = plan.toInventory.withMarkers.schedule.mapError .cycle := by
  unfold determine
  rw [if_pos ordering]
  dsimp only
  cases plan.toInventory.withMarkers.schedule <;> rfl

theorem toInventory_determine_of_needsOrdering (ordering : plan.needsOrdering = true) :
    plan.determine.plan.toInventory = plan.toInventory.withMarkers := by
  unfold determine
  rw [if_pos ordering]
  dsimp only
  cases plan.toInventory.withMarkers.schedule <;> rfl

theorem exists_determine_iff (ordering : plan.needsOrdering = true) :
    (∃ schedule, plan.determine.result = .ok schedule) ↔
      ∃ schedule, plan.toInventory.withMarkers.schedule = .ok schedule := by
  simp [result_determine ordering]

/-- The only error of the ordering is a cycle. -/
theorem cycle_of_determine {error : PlanError} (failed : plan.determine.result = .error error) :
    ∃ report, error = .cycle report := by
  by_cases ordering : plan.needsOrdering = true
  · rw [result_determine ordering, mapError_eq_error_iff] at failed
    obtain ⟨report, _, rfl⟩ := failed
    exact ⟨report, rfl⟩
  · unfold Plan.determine at failed
    rw [if_neg ordering] at failed
    cases failed

theorem Collects.exists_determine_iff (collects : Collects base resolver entries plan)
    (avoids : resolver.AvoidsMarkers) (ordering : plan.needsOrdering = true) :
    (∃ schedule, plan.determine.result = .ok schedule) ↔
      ∀ item, ¬ Relation.TransGen (base.Precedes resolver entries) item item := by
  rw [Plan.exists_determine_iff ordering]
  constructor
  · rintro ⟨schedule, scheduled⟩
    exact (collects.acyclic_iff avoids).mp (Inventory.acyclic_relationGraph_of_schedule scheduled)
  · exact collects.exists_schedule avoids

theorem Collects.determine (collects : Collects base resolver entries plan)
    (reliable : resolver.IsReliable) (ordering : plan.needsOrdering = true) :
    ((∃ schedule, plan.determine.result = .ok schedule) ↔
      ∀ item, ¬ Relation.TransGen (base.Precedes resolver entries) item item) ∧
    ∀ error, plan.determine.result = .error error → ∃ report, error = .cycle report :=
  ⟨collects.exists_determine_iff reliable.unmarked ordering, fun _ => cycle_of_determine⟩

/-! ## Requests and ordering together -/

/-- The schedule for requests, if all of them are taken and can be put in order. -/
def scheduleFor (resolver : Resolver) (submissions : List Submission) (plan : Plan) :
    Except PlanError Schedule :=
  let attempt := takeAll resolver submissions plan
  match attempt.result with
  | .error error => .error error
  | .ok () => attempt.plan.determine.result

/-- Cycle rejection is exact. Requests to a fresh plan, in batches of any order, come to a schedule
if and only if nothing that they need has to wait for itself, and are refused for a cycle
otherwise. -/
theorem scheduleFor_ok_iff (fresh : plan.IsFresh) (reliable : resolver.IsReliable)
    (unmarked : ∀ submission ∈ submissions, ∀ item ∈ submission.requested,
      item.isMarker = false) :
    ((∃ schedule, plan.scheduleFor resolver submissions = .ok schedule) ↔
      ∀ item, ¬ Relation.TransGen
        (plan.Precedes resolver (submissions.flatMap Submission.requested)) item item) ∧
    ∀ error, plan.scheduleFor resolver submissions = .error error →
      ∃ report, error = .cycle report := by
  have taken := (fresh.collects resolver).takeAll reliable unmarked
  rw [List.nil_append] at taken
  unfold scheduleFor
  dsimp only
  rcases taken with ⟨report, failed, item, cyclic⟩ | ⟨succeeded, collects, ordering⟩
  · rw [failed]
    refine ⟨⟨by simp, fun acyclic => absurd cyclic (acyclic item)⟩, fun error same => ?_⟩
    cases same
    exact ⟨report, rfl⟩
  · rw [succeeded]
    dsimp only
    by_cases pending : plan.needsOrdering = true ∨ submissions ≠ []
    · exact collects.determine reliable (ordering pending)
    · obtain ⟨settled, none⟩ := not_or.mp pending
      cases not_not.mp none
      have nothing : ∀ item, ¬ plan.Needs resolver [] item := by
        intro item needs
        have listed := collects.mem_index_iff.mpr needs
        rw [ItemSet.mem_def, show (takeAll resolver [] plan).plan.index.items = [] from
          congrArg (fun found => found.index.items) fresh.inventory] at listed
        cases listed
      have determined : (takeAll resolver [] plan).plan.determine.result =
          .ok (plan.schedule?.getD {}) := by
        show plan.determine.result = _
        unfold Plan.determine
        rw [if_neg settled]
      rw [determined]
      refine ⟨⟨fun _ item steps => ?_, fun _ => ⟨_, rfl⟩⟩, by simp⟩
      obtain ⟨_, step, _⟩ := Relation.TransGen.head'_iff.mp steps
      exact nothing item step.1

/-! ## An example -/

theorem isReliable_exampleResolver : exampleResolver.IsReliable where
  answers item _ := ⟨exampleAnswer item, rfl⟩
  unmarked item resolution answered other mentioned := by
    have member := exampleResolver.mentioned_subset answered other mentioned
    rcases List.mem_cons.mp member with rfl | member
    · rfl
    · rcases List.mem_cons.mp member with rfl | member
      · rfl
      · cases List.mem_singleton.mp member
        rfl

theorem scheduleFor_ok_example :
    (∃ schedule, examplePlan.scheduleFor exampleResolver exampleSubmissions = .ok schedule) ∧
      ∀ item, ¬ Relation.TransGen (examplePlan.Precedes exampleResolver
        [.task "test", .task "compile"]) item item := by
  have fresh : examplePlan.IsFresh := isFresh_new _ _
  have unmarked : ∀ submission ∈ exampleSubmissions, ∀ item ∈ submission.requested,
      item.isMarker = false :=
    List.forall_mem_cons.mpr ⟨Submission.tasks_unmarked _ _,
      List.forall_mem_singleton.mpr (List.forall_mem_singleton.mpr rfl)⟩
  have scheduled : ∃ schedule,
      examplePlan.scheduleFor exampleResolver exampleSubmissions = .ok schedule := ⟨_, rfl⟩
  exact ⟨scheduled, (scheduleFor_ok_iff fresh isReliable_exampleResolver unmarked).1.mp scheduled⟩

end Plan

end TaskPlanner
