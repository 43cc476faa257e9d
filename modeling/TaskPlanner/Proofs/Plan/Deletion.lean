import TaskPlanner.Proofs.Plan.CycleRejection
import TaskPlanner.Proofs.Plan.Renumbering
import TaskPlanner.Proofs.Plan.Restriction
import TaskPlanner.Proofs.Schedule.Likeness

/-! Excluding tasks is the same as deleting them. The plan whose filter rejects some of the tasks,
and the plan of a build that never had them, list the same items in the same order and have the
same schedule. What was set aside is all that is different. -/

set_option autoImplicit false

namespace TaskPlanner

/-- The resolver of a build without the items that are not kept. -/
def Resolver.restrict (resolver : Resolver) (keep : WorkItem → Bool) : Resolver where
  answer item := (resolver.answer item).map (·.restrict keep)
  mentionable := resolver.mentionable
  mentioned_subset := by
    intro item resolution answered other mentioned
    cases told : resolver.answer item with
    | error fault =>
        rw [told] at answered
        cases answered
    | ok original =>
        rw [told] at answered
        cases answered
        refine resolver.mentioned_subset told other ?_
        simp only [Resolution.mentioned, Resolution.restrict, List.mem_append, List.mem_map,
          List.mem_filter] at mentioned ⊢
        exact mentioned.imp (fun ⟨successor, ⟨listed, _⟩, same⟩ => ⟨successor, listed, same⟩) (·.1)

theorem Resolver.restricts_restrict (resolver : Resolver) (keep : WorkItem → Bool) :
    resolver.Restricts keep (resolver.restrict keep) :=
  fun _ _ => rfl

/-- The plan, with a filter that accepts everything. -/
def Plan.acceptAll (plan : Plan) : Plan := { plan with accepts := fun _ => true }

/-- The schedule, without what the filter rejected. -/
def Schedule.forgetFiltered (schedule : Schedule) : Schedule := { schedule with filtered := [] }

/-! ## What is in the plan, and what was set aside -/

/-- The filter keeps what is kept. The index holds nothing else, and what was set aside was not
kept. -/
structure Plan.IsSifted (keep : WorkItem → Bool) (plan : Plan) : Prop where
  accepts : ∀ item, plan.acceptsItem item = keep item
  index : ∀ item ∈ plan.index, keep item = true
  filtered : ∀ item ∈ plan.filtered, keep item = false

namespace Walk

variable {keep : WorkItem → Bool} {resolver : Resolver} {walk next last : Walk}
  {attempt : Attempt Unit}

theorem Moves.isSifted (moves : Moves resolver walk next) (sifted : walk.plan.IsSifted keep) :
    next.plan.IsSifted keep := by
  obtain ⟨accepts, index, filtered⟩ := sifted
  cases moves with
  | drop => exact ⟨accepts, index, filtered⟩
  | @setAside visit _ _ _ rejected =>
      refine ⟨accepts, index, fun item listed => ?_⟩
      rcases ItemSet.mem_insert.mp listed with before | rfl
      · exact filtered item before
      · rw [← accepts, rejected]
  | @leave visit _ _ _ accepted =>
      refine ⟨accepts, fun item listed => ?_, filtered⟩
      rcases ItemSet.mem_insert.mp listed with before | rfl
      · exact index item before
      · rw [← accepts, accepted]
  | descend => exact ⟨accepts, index, filtered⟩

theorem Reaches.isSifted (reaches : Reaches resolver walk last)
    (sifted : walk.plan.IsSifted keep) : last.plan.IsSifted keep := by
  induction reaches with
  | refl => exact sifted
  | tail _ moves ih => exact moves.isSifted ih

theorem Stops.isSifted (stops : Stops resolver walk attempt) (sifted : walk.plan.IsSifted keep) :
    attempt.plan.IsSifted keep := by
  cases stops <;> exact ⟨sifted.accepts, sifted.index, sifted.filtered⟩

end Walk

namespace Plan

variable {keep : WorkItem → Bool} {plan left right : Plan} {resolver asked askedToo : Resolver}
  {submissions : List Submission}

theorem IsSifted.prepare (sifted : plan.IsSifted keep) (submission : Submission) :
    (plan.prepare submission).IsSifted keep :=
  prepare_induction (IsSifted keep) sifted (fun _ _ ih => ⟨ih.accepts, ih.index, ih.filtered⟩)
    (fun _ _ ih => ⟨ih.accepts, ih.index, ih.filtered⟩)
    fun _ _ _ ih => ⟨ih.accepts, ih.index, ih.filtered⟩

theorem IsSifted.take (sifted : plan.IsSifted keep) (resolver : Resolver)
    (submission : Submission) : (plan.take resolver submission).plan.IsSifted keep := by
  cases shut : plan.isFinalized with
  | true =>
      rw [take_of_isFinalized shut]
      exact sifted
  | false =>
      obtain ⟨last, reaches, stops⟩ := exists_last_take resolver shut submission
      exact stops.isSifted (reaches.isSifted (sifted.prepare submission))

/-! ## Two plans -/

/-- The one plan sets aside what is not kept, and the other one has never heard of it. -/
structure Excludes (keep : WorkItem → Bool) (left right : Plan) : Prop where
  alike : left.Restricts keep right
  sifted : left.IsSifted keep
  needsOrdering : right.needsOrdering = left.needsOrdering
  unscheduled : left.schedule? = none ∧ right.schedule? = none

theorem IsFresh.excludes (fresh : plan.IsFresh) (unscheduled : plan.schedule? = none) :
    plan.Excludes plan.acceptsItem plan.acceptAll := by
  have index : plan.index = {} := congrArg Inventory.index fresh.inventory
  have filtered : plan.filtered = {} := congrArg Inventory.filtered fresh.inventory
  refine ⟨⟨(fresh.restricts plan.acceptsItem).toRestricts, fun item kept => ?_, rfl, rfl, rfl⟩,
    ⟨fun _ => rfl, fun item listed => ?_, fun item listed => ?_⟩, rfl, unscheduled, unscheduled⟩
  · rw [kept]
    cases item <;> rfl
  · rw [index] at listed
    cases listed
  · rw [filtered] at listed
    cases listed

theorem Excludes.take (excludes : left.Excludes keep right)
    (resolvers : asked.Restricts keep askedToo) (submission : Submission) :
    (right.take askedToo (submission.restrict keep)).result = (left.take asked submission).result ∧
      (left.take asked submission).plan.Excludes keep
        (right.take askedToo (submission.restrict keep)).plan := by
  obtain ⟨alike, sifted, needsOrdering, unscheduled, unscheduledToo⟩ := excludes
  have attempts := alike.take resolvers submission (by
    intro walk reaches visit _ dropped
    rw [(reaches.isSifted (sifted.prepare submission)).accepts, dropped])
  refine ⟨attempts.result, attempts.plan, sifted.take asked submission, ?_,
    (schedule?_take ..).trans unscheduled, (schedule?_take ..).trans unscheduledToo⟩
  cases shut : left.isFinalized with
  | true =>
      rw [take_of_isFinalized shut, take_of_isFinalized (alike.isFinalized.trans shut)]
      exact needsOrdering
  | false =>
      rw [needsOrdering_take shut, needsOrdering_take (alike.isFinalized.trans shut)]

theorem Excludes.takeEach (excludes : left.Excludes keep right)
    (resolvers : asked.Restricts keep askedToo) (submissions : List Submission) :
    (right.takeEach askedToo (submissions.map (·.restrict keep))).1 =
        (left.takeEach asked submissions).1 ∧
      (left.takeEach asked submissions).2.Excludes keep
        (right.takeEach askedToo (submissions.map (·.restrict keep))).2 := by
  induction submissions generalizing left right with
  | nil => exact ⟨rfl, excludes⟩
  | cons submission rest ih =>
      obtain ⟨result, plans⟩ := excludes.take resolvers submission
      obtain ⟨results, last⟩ := ih plans
      exact ⟨List.cons_eq_cons.mpr ⟨result, results⟩, last⟩

end Plan

/-! ## Schedules -/

namespace Batches

variable {keep : WorkItem → Bool} {registry : Batches}

/-- A registry all of whose batches name something that is kept has all of its batches left. -/
theorem restrict_eq_map
    (named : ∀ batch ∈ registry.batches, ∃ entry ∈ batch.entries, keep entry = true) :
    registry.restrict keep = { batches := registry.batches.map fun batch =>
      { batch with entries := batch.entries.restrict keep } } := by
  unfold restrict
  rw [← List.filterMap_eq_map]
  refine congrArg _ (List.filterMap_congr fun batch listed => ?_)
  obtain ⟨entry, requested, kept⟩ := named batch listed
  have some : (batch.entries.restrict keep).isEmpty = false :=
    List.isEmpty_eq_false_iff.mpr (List.ne_nil_of_mem (ItemSet.mem_restrict.mpr ⟨requested, kept⟩))
  unfold Batch.restrict?
  dsimp only
  rw [some]
  rfl

theorem ordinals_restrict
    (named : ∀ batch ∈ registry.batches, ∃ entry ∈ batch.entries, keep entry = true) :
    (registry.restrict keep).ordinals = registry.ordinals := by
  rw [restrict_eq_map named]
  exact List.map_map

theorem entriesOf_restrict
    (named : ∀ batch ∈ registry.batches, ∃ entry ∈ batch.entries, keep entry = true)
    (ordinal : Ordinal) :
    (registry.restrict keep).entriesOf ordinal = (registry.entriesOf ordinal).filter keep := by
  rw [restrict_eq_map named]
  unfold entriesOf find?
  rw [List.find?_map]
  show Option.getD (Option.map _ (Option.map _ (registry.batches.find? (·.ordinal = ordinal)))) [] =
    _
  cases registry.batches.find? (·.ordinal = ordinal) <;> rfl

end Batches

namespace Inventory

variable {keep : WorkItem → Bool} {left right : Inventory}

theorem Restricts.addMarker (same : left.Restricts keep right) {ordinal : Ordinal}
    (kept : keep (.marker ordinal) = true) :
    (left.addMarker ordinal).Restricts keep (right.addMarker ordinal) :=
  { same with
    catalog := same.catalog.update _ fun node => by rw [Node.join_restrict]; rfl
    index := by
      show right.index.insert _ = (left.index.insert _).restrict keep
      rw [same.index, ItemSet.restrict_insert_of_keep left.index kept] }

theorem Restricts.withMarkers (same : left.Restricts keep right)
    (kept : ∀ ordinal, keep (.marker ordinal) = true)
    (ordinals : right.batches.ordinals = left.batches.ordinals) :
    left.withMarkers.Restricts keep right.withMarkers := by
  unfold Inventory.withMarkers markedOrdinals
  rw [ordinals]
  clear ordinals
  generalize left.batches.ordinals.tail = marked
  induction marked generalizing left right with
  | nil => exact same
  | cons ordinal rest ih => exact ih (same.addMarker (kept ordinal))

/-- The ordering reads the same of both inventories if everything in the index is kept and every
batch names something that is. -/
theorem Restricts.resembles (same : left.Restricts keep right)
    (indexed : ∀ item ∈ left.index, keep item = true)
    (named : ∀ batch ∈ left.batches.batches, ∃ entry ∈ batch.entries, keep entry = true) :
    right.index = left.index ∧ left.Resembles (fun _ => true) right := by
  have index : right.index = left.index :=
    same.index.trans (ItemSet.restrict_eq_self indexed)
  have nodes : ∀ item ∈ left.index, right.node item = (left.node item).restrict keep :=
    fun item listed => same.catalog item (indexed item listed)
  have related : ∀ items : List WorkItem,
      (items.filter keep).filter (· ∈ left.index) = items.filter (· ∈ left.index) := by
    refine fun items => filter_filter_of_plain fun item _ dropped => ?_
    refine decide_eq_false fun listed => ?_
    rw [indexed item listed] at dropped
    cases dropped
  refine ⟨index, by rw [index], by rw [index], fun _ _ special => Bool.noConfusion special,
    fun item listed => by rw [nodes item listed]; rfl,
    fun item listed => by rw [nodes item listed]; rfl, fun item listed => ?_,
    fun item listed => ?_, fun item listed => ?_, fun item listed => ?_, fun item listed => ?_, ?_,
    fun ordinal => ?_⟩
  · unfold relations
    rw [nodes item listed]
    rfl
  · unfold relations
    rw [nodes item listed]
    exact related _
  · unfold relations
    rw [nodes item listed]
    exact related _
  · rw [same.entries, ItemSet.mem_restrict]
    exact and_iff_left (indexed item listed)
  · rw [same.finalizers, ItemSet.mem_restrict]
    exact and_iff_left (indexed item listed)
  · rw [same.batches, Batches.ordinals_restrict named]
  · rw [same.batches, Batches.entriesOf_restrict named, related]

end Inventory

namespace Plan

variable {keep : WorkItem → Bool} {plan left right : Plan}

theorem Excludes.filtered_eq (excludes : left.Excludes keep right) : right.filtered = {} := by
  refine excludes.alike.filtered.trans (congrArg ItemSet.mk (List.filter_eq_nil_iff.mpr ?_))
  intro item listed kept
  rw [excludes.sifted.filtered item listed] at kept
  cases kept

theorem Excludes.index_eq (excludes : left.Excludes keep right) : right.index = left.index :=
  excludes.alike.index.trans (ItemSet.restrict_eq_self excludes.sifted.index)

/-- The plans come to the same schedule, or fail with the same error. -/
theorem Excludes.determine_eq (excludes : left.Excludes keep right)
    (kept : ∀ ordinal, keep (.marker ordinal) = true)
    (named : ∀ batch ∈ left.batches.batches, ∃ entry ∈ batch.entries, keep entry = true) :
    right.determine.result = left.determine.result.map (·.forgetFiltered) ∧
      right.determine.plan.index = left.determine.plan.index := by
  have ordinals : right.batches.ordinals = left.batches.ordinals := by
    rw [excludes.alike.batches, Batches.ordinals_restrict named]
  have marks := left.toInventory.marks_withMarkers
  have marked := excludes.alike.toRestricts.withMarkers kept ordinals
  obtain ⟨index, alike⟩ := marked.resembles
    (by
      intro item listed
      rcases (marks.index item).mp listed with before | ⟨ordinal, _, rfl⟩
      · exact excludes.sifted.index item before
      · exact kept ordinal)
    (by rw [marks.batches]; exact named)
  have same := excludes.needsOrdering
  cases ordering : left.needsOrdering with
  | true =>
      rw [ordering] at same
      have filtered : right.toInventory.withMarkers.filtered = {} :=
        Inventory.withMarkers_induction (·.filtered = {}) (fun _ _ => id) excludes.filtered_eq
      rw [result_determine ordering, result_determine same,
        toInventory_determine_of_needsOrdering ordering,
        toInventory_determine_of_needsOrdering same,
        alike.schedule_eq (alike.linearOrder_eq index), filtered]
      refine ⟨?_, index⟩
      cases left.toInventory.withMarkers.schedule <;> rfl
  | false =>
      rw [ordering] at same
      unfold Plan.determine
      rw [ordering, same, excludes.unscheduled.1, excludes.unscheduled.2]
      exact ⟨rfl, excludes.index_eq⟩

/-- Excluding tasks is the same as deleting them. One plan has a filter; the other one has none, but
what the filter rejects is removed from all requests and from everything that the resolver tells.
If every batch asks for something that the filter lets through, then the same requests fail with the
same errors, the plans list the same items in the same order, and they have the same schedule, or no
schedule for the same reason. What was set aside is all that differs. -/
theorem takeEach_restrict (fresh : plan.IsFresh) (unscheduled : plan.schedule? = none)
    (resolver : Resolver) (submissions : List Submission)
    (named : ∀ batch ∈ (plan.takeEach resolver submissions).2.batches.batches,
      ∃ entry ∈ batch.entries, plan.acceptsItem entry = true) :
    let keep := plan.acceptsItem
    let results := (plan.takeEach resolver submissions).1
    let excluding := (plan.takeEach resolver submissions).2
    let requests := submissions.map (·.restrict keep)
    let deleting := (plan.acceptAll.takeEach (resolver.restrict keep) requests).2
    (plan.acceptAll.takeEach (resolver.restrict keep) requests).1 = results ∧
      deleting.index = excluding.index ∧
      (∀ item, keep item = true → deleting.node item = (excluding.node item).restrict keep) ∧
      deleting.determine.result = excluding.determine.result.map (·.forgetFiltered) ∧
      deleting.determine.plan.index = excluding.determine.plan.index ∧
      deleting.finalize.result = excluding.finalize.result.map (·.forgetFiltered) ∧
      deleting.filtered = {} ∧
      ∀ item ∈ excluding.filtered, keep item = false := by
  obtain ⟨results, excludes⟩ := (fresh.excludes unscheduled).takeEach
    (resolver.restricts_restrict plan.acceptsItem) submissions
  obtain ⟨determined, indices⟩ := excludes.determine_eq (fun _ => rfl) named
  refine ⟨results, excludes.index_eq, excludes.alike.catalog, determined, indices, ?_,
    excludes.filtered_eq, excludes.sifted.filtered⟩
  rw [(finalize_cases _).1, (finalize_cases _).1]
  exact determined

/-- A request for the documentation and another task, and then one for the tests, which depend on the
documentation. -/
def documentedRequests : List Submission :=
  [.tasks ["document", "lint"] none, .tasks ["test"] none]

theorem named_documentedRequests :
    ∀ batch ∈ (examplePlan.takeEach exampleResolver documentedRequests).2.batches.batches,
      ∃ entry ∈ batch.entries, examplePlan.acceptsItem entry = true := by
  have batches : (examplePlan.takeEach exampleResolver documentedRequests).2.batches.batches =
      [⟨.first, { items := [.task "document", .task "lint"] }⟩,
        ⟨Ordinal.first.next, { items := [.task "test"] }⟩] := rfl
  rw [batches]
  intro batch listed
  rcases List.mem_cons.mp listed with rfl | rest
  · exact ⟨.task "lint", by decide, rfl⟩
  · cases List.mem_singleton.mp rest
    exact ⟨.task "test", by decide, rfl⟩

theorem takeEach_restrict_documentation :
    let excluding := (examplePlan.takeEach exampleResolver documentedRequests).2
    let deleting := (examplePlan.acceptAll.takeEach (exampleResolver.restrict examplePlan.acceptsItem)
      (documentedRequests.map (·.restrict examplePlan.acceptsItem))).2
    examplePlan.IsFresh ∧ examplePlan.schedule? = none ∧
      (∀ batch ∈ excluding.batches.batches,
        ∃ entry ∈ batch.entries, examplePlan.acceptsItem entry = true) ∧
      excluding.filtered.items = [.task "document"] ∧ deleting.filtered = {} ∧
      deleting.determine.result = excluding.determine.result.map (·.forgetFiltered) ∧
      deleting.determine.result.map (·.order) = .ok ["lint", "compile", "cleanup", "test"] := by
  have fresh : examplePlan.IsFresh := isFresh_new _ _
  have same := takeEach_restrict fresh rfl exampleResolver documentedRequests named_documentedRequests
  exact ⟨fresh, rfl, named_documentedRequests, rfl, same.2.2.2.2.2.2.1, same.2.2.2.1, rfl⟩

end Plan

end TaskPlanner
