import TaskPlanner.Proofs.Plan.CycleRejection
import TaskPlanner.Proofs.Plan.Foresight
import TaskPlanner.Proofs.Plan.Gathering
import TaskPlanner.Resolver.Rows

/-! Asking for the schedule early. It puts markers into the index, and what is found later stands
behind them. Nothing else differs from the plan that is put in order once, at the end: it has a
schedule if the other has one, and the same nodes are on it. Their order is the same too, unless
there is something that the places of markers decide. -/

set_option autoImplicit false

namespace TaskPlanner

theorem WorkItem.isPublic_eq_true_iff {item : WorkItem} :
    item.isPublic = true ↔ item.isMarker = false := by
  simp [isPublic]

/-- Nothing that the resolver tells has to do with markers. -/
theorem Resolver.AvoidsMarkers.restricts {resolver : Resolver} (avoids : resolver.AvoidsMarkers) :
    resolver.Restricts WorkItem.isPublic resolver := by
  intro item _
  cases told : resolver.answer item with
  | error fault => rfl
  | ok resolution =>
      refine congrArg Except.ok (Resolution.restrict_eq_self fun other mentioned => ?_).symm
      exact WorkItem.isPublic_eq_true_iff.mpr (avoids item resolution told other mentioned)

/-! ## Requests leave the markers alone -/

namespace Catalog

variable {catalog : Catalog} {change : Node → Node} {item other : WorkItem}

theorem node_update_of_ne (different : other ≠ item) :
    (catalog.update item change).node other = catalog.node other := by
  rw [node_update, if_neg different]

theorem node_record_of_not_mentioned {resolution : Resolution}
    (absent : other ∉ resolution.mentioned) :
    (catalog.record resolution).node other = catalog.node other := by
  have unrelated : ∀ successor ∈ resolution.successors, other ≠ successor.item := by
    rintro successor listed rfl
    exact absent (List.mem_append_left _ (List.mem_map_of_mem listed))
  unfold record
  rw [node_internAll]
  clear absent
  generalize resolution.successors = successors at unrelated
  induction successors generalizing catalog with
  | nil => rfl
  | cons successor rest ih =>
      obtain ⟨first, later⟩ := List.forall_mem_cons.mp unrelated
      exact (ih later).trans (node_update_of_ne first)

end Catalog

theorem Resolution.hardSuccessors_subset_mentioned (resolution : Resolution) :
    resolution.relations.hardSuccessors ⊆ resolution.mentioned := by
  intro item member
  obtain ⟨successor, listed, rfl⟩ := List.mem_map.mp member
  exact List.mem_append_left _ (List.mem_map_of_mem (List.mem_filter.mp listed).1)

/-- As far as markers go, the plan is as it was. -/
structure Plan.SparesMarkers (base plan : Plan) : Prop where
  listed : plan.ListsPublic
  index : ∀ ordinal, .marker ordinal ∈ plan.index → .marker ordinal ∈ base.index
  node : ∀ ordinal, plan.node (.marker ordinal) = base.node (.marker ordinal)

theorem WorkItem.marker_ne {item : WorkItem} (unmarked : item.isMarker = false)
    (ordinal : Ordinal) : .marker ordinal ≠ item := by
  rintro rfl
  cases unmarked

namespace Walk

variable {base : Plan} {resolver : Resolver} {walk next last : Walk}

theorem Moves.sparesMarkers (moves : Moves resolver walk next) (avoids : resolver.AvoidsMarkers)
    (apart : walk.IsApart) (spares : base.SparesMarkers walk.plan) :
    base.SparesMarkers next.plan := by
  obtain ⟨listed, index, node⟩ := spares
  have unmarked : ∀ visit rest, walk.queue = visit :: rest → visit.item.isMarker = false :=
    fun visit _ front => apart.unmarked visit (front ▸ List.mem_cons_self)
  cases moves with
  | drop => exact ⟨listed, index, node⟩
  | @setAside visit rest front _ _ =>
      refine ⟨fun item member => ?_, index, fun ordinal => ?_⟩
      · rcases member with entry | filtered | finalizer
        · exact listed item (.inl entry)
        · rcases ItemSet.mem_insert.mp filtered with before | rfl
          · exact listed item (.inr (.inl before))
          · exact WorkItem.isPublic_eq_true_iff.mpr (unmarked visit rest front)
        · exact listed item (.inr (.inr finalizer))
      · exact (Catalog.node_update_of_ne (WorkItem.marker_ne (unmarked visit rest front) _)).trans
          (node ordinal)
  | @leave visit rest front _ _ _ =>
      refine ⟨fun item member => ?_, fun ordinal member => ?_, fun ordinal => ?_⟩
      · rcases member with entry | filtered | finalizer
        · exact listed item (.inl entry)
        · exact listed item (.inr (.inl filtered))
        · rcases ItemSet.mem_insertAll.mp finalizer with before | new
          · exact listed item (.inr (.inr before))
          · have finalizes :
                item ∈ ((walk.plan.enroll visit.item).relations visit.item).finalizers := new
            rw [Plan.relations_enroll] at finalizes
            exact WorkItem.isPublic_eq_true_iff.mpr ((apart.apart visit.item).finalizer finalizes).2
      · refine index ordinal ((ItemSet.mem_insert.mp member).resolve_right ?_)
        exact WorkItem.marker_ne (unmarked visit rest front) ordinal
      · exact (Catalog.node_update_of_ne (WorkItem.marker_ne (unmarked visit rest front) _)).trans
          (node ordinal)
  | @descend visit rest resolution front _ _ _ answered =>
      refine ⟨listed, index, fun ordinal => ?_⟩
      have absent : .marker ordinal ∉ resolution.mentioned := by
        intro mentioned
        cases avoids visit.item resolution answered _ mentioned
      have different := WorkItem.marker_ne (unmarked visit rest front) ordinal
      show ((walk.plan.inquire visit.item).adopt visit.item resolution).catalog.node _ = _
      rw [Plan.catalog_adopt, Catalog.node_updateAll_of_not_mem fun hard =>
          absent (resolution.hardSuccessors_subset_mentioned hard),
        Catalog.node_update_of_ne different, Catalog.node_record_of_not_mentioned absent]
      exact (Catalog.node_update_of_ne different).trans (node ordinal)

theorem Reaches.sparesMarkers (reaches : Reaches resolver walk last)
    (avoids : resolver.AvoidsMarkers) (apart : walk.IsApart)
    (spares : base.SparesMarkers walk.plan) : base.SparesMarkers last.plan := by
  induction reaches with
  | refl => exact spares
  | tail reaches moves ih =>
      exact moves.sparesMarkers avoids (Reaches.isApart reaches avoids apart) ih

end Walk

namespace Plan

variable {base plan early late : Plan} {resolver : Resolver} {submission : Submission}

theorem SparesMarkers.prepare (spares : base.SparesMarkers plan)
    (unmarked : ∀ item ∈ submission.requested, item.isMarker = false) :
    base.SparesMarkers (plan.prepare submission) := by
  refine prepare_induction base.SparesMarkers spares
    (fun other items ih => ⟨ih.listed, ih.index, fun ordinal => ?_⟩)
    (fun _ _ ih => ⟨ih.listed, ih.index, ih.node⟩)
    fun other item requested ih => ⟨fun entry => ?_, ih.index, fun ordinal => ?_⟩
  · rw [show (other.mention items).node _ = _ from node_mention other items _]
    exact ih.node ordinal
  · rintro (member | elsewhere)
    · rcases ItemSet.mem_insert.mp member with before | rfl
      · exact ih.listed entry (.inl before)
      · exact WorkItem.isPublic_eq_true_iff.mpr (unmarked entry requested)
    · exact ih.listed entry (.inr elsewhere)
  · exact (Catalog.node_update_of_ne (WorkItem.marker_ne (unmarked item requested) _)).trans
      (ih.node ordinal)

theorem IsGathered.sparesMarkers_take (gathered : plan.IsGathered) (listed : plan.ListsPublic)
    (avoids : resolver.AvoidsMarkers)
    (unmarked : ∀ item ∈ submission.requested, item.isMarker = false)
    (taken : (plan.take resolver submission).result = .ok ()) :
    plan.SparesMarkers (plan.take resolver submission).plan := by
  obtain ⟨last, reaches, _, same⟩ := exists_last_of_take taken
  have spares : plan.SparesMarkers plan := ⟨listed, fun _ => id, fun _ => rfl⟩
  rw [same]
  exact reaches.sparesMarkers avoids (gathered.toIsTidy.isApart unmarked) (spares.prepare unmarked)

/-! ## The batches of a request -/

theorem batches_take (unfinalized : plan.isFinalized = false) (resolver : Resolver)
    (submission : Submission) :
    (plan.take resolver submission).plan.batches =
      (WorkItem.arranged submission.requested).foldl
        (fun registry item => registry.addEntry (plan.ordinalFor submission) item) plan.batches := by
  have entered : ∀ (items : List WorkItem) (other : Plan) (ordinal : Ordinal),
      (items.foldl (request ordinal) other).batches =
        items.foldl (fun registry item => registry.addEntry ordinal item) other.batches := by
    intro items
    induction items with
    | nil => exact fun _ _ => rfl
    | cons item rest ih => exact fun other ordinal => ih _ ordinal
  obtain ⟨items, prepared⟩ := plan.exists_prepare_eq submission
  rw [take_keepsRequests resolver unfinalized submission]
  show (plan.prepare submission).batches = _
  rw [prepared, entered]
  rfl

theorem mem_ordinals_take (unfinalized : plan.isFinalized = false) (resolver : Resolver)
    (submission : Submission) {ordinal : Ordinal} :
    ordinal ∈ (plan.take resolver submission).plan.batches.ordinals ↔
      ordinal ∈ plan.batches.ordinals ∨
        submission.requested ≠ [] ∧ ordinal = plan.ordinalFor submission := by
  rw [batches_take unfinalized, ne_eq, ← WorkItem.arranged_eq_nil]
  generalize plan.batches = registry
  generalize WorkItem.arranged submission.requested = items
  induction items generalizing registry with
  | nil => simp
  | cons item rest ih =>
      rw [List.foldl_cons, ih, Batches.mem_ordinals_addEntry]
      simp only [reduceCtorEq, not_false_eq_true, true_and]
      tauto

/-- A batch that has a marker keeps it. -/
theorem mem_markedOrdinals_take (isBatched : plan.IsBatched)
    (isBatchedToo : (plan.take resolver submission).plan.IsBatched)
    (unfinalized : plan.isFinalized = false) {ordinal : Ordinal}
    (marked : ordinal ∈ plan.markedOrdinals) :
    ordinal ∈ (plan.take resolver submission).plan.markedOrdinals := by
  obtain ⟨earlier, present, order⟩ : ∃ earlier ∈ plan.batches.ordinals, earlier < ordinal := by
    have ascending := isBatched.batched.ascending
    unfold Batches.IsAscending at ascending
    unfold Inventory.markedOrdinals at marked
    cases split : plan.batches.ordinals with
    | nil => rw [split] at marked; cases marked
    | cons first rest =>
        rw [split] at marked ascending
        exact ⟨first, List.mem_cons_self, (List.pairwise_cons.mp ascending).1 ordinal marked⟩
  have kept : ∀ other ∈ plan.batches.ordinals,
      other ∈ (plan.take resolver submission).plan.batches.ordinals :=
    fun _ member => (mem_ordinals_take unfinalized resolver submission).mpr (.inl member)
  exact isBatchedToo.batched.ascending.mem_tail (kept earlier present)
    (kept ordinal (List.mem_of_mem_tail marked)) order

/-! ## Plans that were put in order early -/

/-- The one plan was put in order in between, the other was not. Either both have to be put in order,
or the schedule of the one is up to date and that of the other is not, or nothing was requested. -/
structure Anticipates (early late : Plan) : Prop where
  gathered : early.IsGathered
  gatheredToo : late.IsGathered
  alike : early.Restricts WorkItem.isPublic late
  foresees : early.toInventory.Foresees late.toInventory
  unscheduled : late.schedule? = none
  pending : early.needsOrdering = true → late.needsOrdering = true
  settled : early.needsOrdering = false →
    late.needsOrdering = false ∧ early.schedule?.getD {} = {} ∨
      late.needsOrdering = true ∧ early.toInventory.Completes late.toInventory ∧
        early.toInventory.schedule = .ok (early.schedule?.getD {})

theorem IsFresh.anticipates (fresh : plan.IsFresh) (unscheduled : plan.schedule? = none) :
    plan.Anticipates plan := by
  have gathered := fresh.isGathered unscheduled
  have index : plan.index = {} := congrArg Inventory.index fresh.inventory
  have filtered : plan.filtered = {} := congrArg Inventory.filtered fresh.inventory
  have entries : plan.entries = {} := congrArg Inventory.entries fresh.inventory
  have finalizers : plan.finalizers = {} := congrArg Inventory.finalizers fresh.inventory
  have listed : plan.ListsPublic := by
    unfold Inventory.ListsPublic
    rw [entries, filtered, finalizers]
    rintro item (member | member | member) <;> cases member
  have marks : plan.MarksBatches := by
    unfold Inventory.MarksBatches
    rw [index]
    intro ordinal member
    cases member
  refine ⟨gathered, gathered, fresh.restricts _,
    ⟨rfl, listed, by rw [index]; exact .nil, marks, fun _ => .inl rfl⟩, unscheduled, id, ?_⟩
  exact fun settled => .inl ⟨settled, by rw [unscheduled]; rfl⟩

theorem SparesMarkers.foresees {earlyNext lateNext : Plan} (spares : early.SparesMarkers earlyNext)
    (sparesToo : late.SparesMarkers lateNext)
    (foresees : early.toInventory.Foresees late.toInventory)
    (batches : lateNext.batches = earlyNext.batches) (distinct : earlyNext.index.items.Nodup)
    (marked : ∀ ordinal ∈ early.markedOrdinals, ordinal ∈ earlyNext.markedOrdinals) :
    earlyNext.toInventory.Foresees lateNext.toInventory where
  batches := batches
  listed := spares.listed
  distinct := distinct
  marks ordinal listed := marked ordinal (foresees.marks ordinal (spares.index ordinal listed))
  node ordinal := by
    rw [spares.node ordinal, sparesToo.node ordinal]
    exact foresees.node ordinal

/-- A request that the one plan takes, the other plan takes. -/
theorem Anticipates.take (anticipates : early.Anticipates late) (avoids : resolver.AvoidsMarkers)
    (unmarked : ∀ item ∈ submission.requested, item.isMarker = false)
    (taken : (late.take resolver submission).result = .ok ()) :
    (early.take resolver submission).result = .ok () ∧
      (early.take resolver submission).plan.Anticipates (late.take resolver submission).plan := by
  obtain ⟨gathered, gatheredToo, alike, foresees, unscheduled, _, _⟩ := anticipates
  have restricted : submission.restrict WorkItem.isPublic = submission :=
    Submission.restrict_eq_self fun item requested =>
      WorkItem.isPublic_eq_true_iff.mpr (unmarked item requested)
  -- No walk meets a marker, so it takes the same steps in both plans.
  have attempts := alike.take avoids.restricts submission (by
    intro walk reaches visit queued dropped
    have apart := reaches.isApart avoids (gathered.toIsTidy.isApart unmarked)
    rw [WorkItem.isPublic_eq_true_iff.mpr (apart.unmarked visit queued)] at dropped
    cases dropped)
  have ordinal := alike.ordinalFor_restrict submission
  rw [restricted] at attempts ordinal
  have takenToo := attempts.result.symm.trans taken
  have listedToo : late.ListsPublic := by
    unfold Inventory.ListsPublic
    rw [alike.entries, alike.filtered, alike.finalizers]
    rintro item (member | member | member) <;> exact (ItemSet.mem_restrict.mp member).2
  have gatheredNext := gathered.take avoids unmarked takenToo
  have batches : (late.take resolver submission).plan.batches =
      (early.take resolver submission).plan.batches := by
    rw [batches_take gatheredToo.unfinalized, batches_take gathered.unfinalized, ordinal,
      show late.batches = early.batches from foresees.batches]
  have foreseesNext := (gathered.sparesMarkers_take foresees.listed avoids unmarked takenToo).foresees
    (gatheredToo.sparesMarkers_take listedToo avoids unmarked taken) foresees batches
    (isKept_distinct.take foresees.distinct resolver submission) fun _ =>
      mem_markedOrdinals_take gathered.batched gatheredNext.batched gathered.unfinalized
  refine ⟨takenToo, gatheredNext, gatheredToo.take avoids unmarked taken, attempts.plan,
    foreseesNext, (schedule?_take ..).trans unscheduled,
    fun _ => needsOrdering_take gatheredToo.unfinalized resolver submission, fun settled => ?_⟩
  rw [needsOrdering_take gathered.unfinalized] at settled
  cases settled

theorem Anticipates.determine (anticipates : early.Anticipates late) :
    early.determine.plan.Anticipates late := by
  have ⟨gathered, gatheredToo, alike, foresees, unscheduled, pending, settled⟩ := anticipates
  have gatheredNext := gathered.determine.1
  have marked := alike.toRestricts.withMarkers_left
  have completes := foresees.withMarkers
  have determined := early.determines
  generalize early.determine = attempt at determined gatheredNext ⊢
  cases determined with
  | settled _ =>
      exact ⟨gatheredNext, gatheredToo, { alike with }, foresees, unscheduled, pending, settled⟩
  | failed ordering _ =>
      refine ⟨gatheredNext, gatheredToo, { alike with toRestricts := marked },
        completes.toForesees, unscheduled, fun _ => pending ordering, fun unordered => ?_⟩
      cases ordering.symm.trans unordered
  | scheduled ordering scheduled =>
      have due := pending ordering
      exact ⟨gatheredNext, gatheredToo, { alike with toRestricts := marked }, completes.toForesees,
        unscheduled, fun _ => due, fun _ => .inr ⟨due, completes, scheduled⟩⟩

/-- Put in order at the end, both plans have nothing to do, or their schedules are those of two
inventories that differ only in the places of the markers. -/
theorem Anticipates.results (anticipates : early.Anticipates late) :
    early.determine.result = .ok {} ∧ late.determine.result = .ok {} ∨
      early.determine.plan.toInventory.Completes late.toInventory ∧
        early.determine.result = early.determine.plan.toInventory.schedule.mapError .cycle ∧
        late.determine.result = late.toInventory.withMarkers.schedule.mapError .cycle := by
  have ⟨_, _, _, foresees, unscheduled, pending, settled⟩ := anticipates
  have determined := early.determines
  generalize early.determine = attempt at determined ⊢
  cases determined with
  | settled ordering =>
      rcases settled ordering with ⟨unordered, nothing⟩ | ⟨pending, completes, scheduled⟩
      · refine .inl ⟨congrArg Except.ok nothing, ?_⟩
        unfold Plan.determine
        rw [if_neg (by simp [unordered]), unscheduled]
        rfl
      · refine .inr ⟨completes, ?_, result_determine pending⟩
        exact (congrArg (Except.mapError PlanError.cycle) scheduled).symm
  | failed ordering failed =>
      refine .inr ⟨foresees.withMarkers, ?_, result_determine (pending ordering)⟩
      exact (congrArg (Except.mapError PlanError.cycle) failed).symm
  | scheduled ordering scheduled =>
      refine .inr ⟨foresees.withMarkers, ?_, result_determine (pending ordering)⟩
      exact (congrArg (Except.mapError PlanError.cycle) scheduled).symm

/-- Once both have all their markers, the inventories read the same, except for the places of the
markers. -/
theorem Anticipates.resembles (anticipates : early.Anticipates late)
    (completes : early.toInventory.Completes late.toInventory) :
    early.toInventory.Resembles WorkItem.isPublic late.toInventory.withMarkers := by
  have tidy := anticipates.gathered.toIsTidy
  refine completes.resembles anticipates.alike.toRestricts tidy.relations_marker ?_ ?_
  · exact fun item other member =>
      WorkItem.isPublic_eq_true_iff.mpr ((tidy.apart item).dependency member).1
  · exact fun item other member =>
      WorkItem.isPublic_eq_true_iff.mpr ((tidy.apart item).finalizer member).2

/-! ## Sequences of calls -/

/-- What callers do to a plan before they hand it out. -/
inductive Call where
  | take (resolver : Resolver) (submission : Submission)
  | determine

/-- Make the calls in order, up to the first request that fails. A schedule that does not exist is
no reason to stop. -/
def perform : List Call → Plan → Attempt Unit
  | [], plan => ⟨.ok (), plan⟩
  | .determine :: rest, plan => perform rest plan.determine.plan
  | .take resolver submission :: rest, plan =>
      let attempt := plan.take resolver submission
      match attempt.result with
      | .error error => ⟨.error error, attempt.plan⟩
      | .ok () => perform rest attempt.plan

def Call.isRequest : Call → Bool
  | .take _ _ => true
  | .determine => false

/-- Neither the request nor its resolver has to do with markers. -/
def Call.AvoidsMarkers : Call → Prop
  | .take resolver submission =>
      resolver.AvoidsMarkers ∧ ∀ item ∈ submission.requested, item.isMarker = false
  | .determine => True

theorem Call.avoidsMarkers_tasks {resolver : Resolver}
    (avoids : resolver.AvoidsMarkers) (names : List String) (ordinal? : Option Ordinal) :
    (Call.take resolver (.tasks names ordinal?)).AvoidsMarkers :=
  ⟨avoids, Submission.tasks_unmarked names ordinal?⟩

theorem Anticipates.perform (anticipates : early.Anticipates late) {calls : List Call}
    (avoids : ∀ call ∈ calls, call.AvoidsMarkers)
    (taken : (perform (calls.filter Call.isRequest) late).result = .ok ()) :
    (perform calls early).result = .ok () ∧
      (perform calls early).plan.Anticipates (perform (calls.filter Call.isRequest) late).plan := by
  induction calls generalizing early late with
  | nil => exact ⟨rfl, anticipates⟩
  | cons call rest ih =>
      obtain ⟨first, later⟩ := List.forall_mem_cons.mp avoids
      cases call with
      | determine => exact ih anticipates.determine later taken
      | take resolver submission =>
          rw [List.filter_cons_of_pos rfl] at taken ⊢
          unfold Plan.perform at taken ⊢
          dsimp only at taken ⊢
          cases result : (late.take resolver submission).result with
          | error error =>
              rw [result] at taken
              cases taken
          | ok =>
              obtain ⟨resultToo, plans⟩ := anticipates.take first.1 first.2 result
              rw [result] at taken
              rw [resultToo]
              exact ih plans later taken

/-- Asking for the schedule early changes nothing but the order of the nodes. The same requests
succeed, the plan can be put in order at the end or not, and the same nodes are on its schedule. If
the first marker waits for something, and every marker has come into the index behind the finalizers
of what it waits for, then their order is the same too. -/
theorem perform_determine (fresh : plan.IsFresh) (unscheduled : plan.schedule? = none)
    (calls : List Call) (avoids : ∀ call ∈ calls, call.AvoidsMarkers)
    (taken : (plan.perform (calls.filter Call.isRequest)).result = .ok ()) :
    let early := plan.perform calls
    let late := plan.perform (calls.filter Call.isRequest)
    early.result = .ok () ∧
      ((∃ schedule, early.plan.determine.result = .ok schedule) ↔
        ∃ schedule, late.plan.determine.result = .ok schedule) ∧
      (∀ schedule other, early.plan.determine.result = .ok schedule →
        late.plan.determine.result = .ok other →
          other.nodes.Perm schedule.nodes ∧ other.filtered = schedule.filtered) ∧
      (early.plan.determine.plan.PlacesMarkers →
        late.plan.determine.result.toOption = early.plan.determine.result.toOption) := by
  obtain ⟨result, anticipates⟩ := (fresh.anticipates unscheduled).perform avoids taken
  refine ⟨result, ?_⟩
  generalize (plan.perform calls).plan = early at anticipates ⊢
  generalize (plan.perform (calls.filter Call.isRequest)).plan = late at anticipates ⊢
  have determined := anticipates.determine
  rcases anticipates.results with ⟨first, second⟩ | ⟨completes, first, second⟩
  · rw [first, second]
    refine ⟨Iff.rfl, fun schedule other same sameToo => ?_, fun _ => rfl⟩
    cases same
    cases sameToo
    exact ⟨.refl _, rfl⟩
  · have alike := determined.resembles completes
    have orderly := determined.gathered.toIsTidy.isOrderly_of_marked completes.present
    rw [first, second]
    simp only [mapError_eq_ok_iff]
    refine ⟨(alike.exists_schedule_iff completes.present completes.distinct).symm,
      fun schedule other scheduled scheduledToo =>
        ⟨alike.nodes_perm scheduled scheduledToo, ?_⟩, fun places => ?_⟩
    · rw [Inventory.filtered_of_schedule scheduled, Inventory.filtered_of_schedule scheduledToo,
        completes.filtered_eq determined.alike.toRestricts]
    · rw [toOption_mapError, toOption_mapError]
      refine alike.toOption_schedule orderly completes.marks completes.distinct places ?_
        (completes.filtered_eq determined.alike.toRestricts)
      refine Inventory.pairwise_withMarkers fun item listed => ?_
      rw [determined.alike.index] at listed
      exact (ItemSet.mem_restrict.mp listed).2

/-- Three batches of the example build. The schedule is asked for after two of them, so the marker
of the second batch comes into the index in front of the tests. -/
def earlyCalls : List Call :=
  [.take exampleResolver (.tasks ["compile"] none), .take exampleResolver (.tasks ["lint"] none),
    .determine, .take exampleResolver (.tasks ["test"] none)]

theorem avoidsMarkers_earlyCalls : ∀ call ∈ earlyCalls, call.AvoidsMarkers := by
  have avoids := avoidsMarkers_exampleResolver
  simp only [earlyCalls, List.forall_mem_cons]
  exact ⟨Call.avoidsMarkers_tasks avoids _ _, Call.avoidsMarkers_tasks avoids _ _, trivial,
    Call.avoidsMarkers_tasks avoids _ _, nofun⟩

theorem placesMarkers_earlyCalls :
    (examplePlan.perform earlyCalls).plan.determine.plan.PlacesMarkers := by
  have successions : (examplePlan.perform earlyCalls).plan.determine.plan.batches.successions =
      [(.ofPosition 0, .ofPosition 1), (.ofPosition 1, .ofPosition 2)] := rfl
  constructor
  · rw [successions]
    rintro _ ⟨rfl⟩
    exact ⟨.task "compile", by decide, by decide⟩
  · rw [successions]
    simp only [List.forall_mem_cons]
    exact ⟨by decide, by decide, nofun⟩

theorem perform_determine_earlyCalls :
    let early := examplePlan.perform earlyCalls
    let late := examplePlan.perform (earlyCalls.filter Call.isRequest)
    (examplePlan.IsFresh ∧ examplePlan.schedule? = none) ∧
      (∀ call ∈ earlyCalls, call.AvoidsMarkers) ∧
      late.result = .ok () ∧ early.result = .ok () ∧
      early.plan.determine.plan.index ≠ late.plan.determine.plan.index ∧
      early.plan.determine.plan.PlacesMarkers ∧
      late.plan.determine.result.toOption = early.plan.determine.result.toOption ∧
      early.plan.determine.result.map (·.order) = .ok ["compile", "cleanup", "lint", "test"] := by
  have fresh : examplePlan.IsFresh := isFresh_new _ _
  have places := placesMarkers_earlyCalls
  obtain ⟨result, _, _, same⟩ :=
    perform_determine fresh rfl earlyCalls avoidsMarkers_earlyCalls rfl
  exact ⟨⟨fresh, rfl⟩, avoidsMarkers_earlyCalls, rfl, result, by decide, places, same places, rfl⟩

/-- A batch that is left out, compiling, and a deployment that waits for a package which no batch
needs. The schedule is asked for in front of the deployment. -/
def softCalls : List Call :=
  let resolver := Resolver.ofDeclarations [.softDependency "deploy" "pack"]
  [.take resolver (.tasks ["document"] none), .take resolver (.tasks ["compile"] none), .determine,
    .take resolver (.tasks ["deploy"] none)]

/-- The first marker waits for nothing, so it is placed where it came into the index. -/
theorem order_eq_softCalls :
    let early := examplePlan.perform softCalls
    let late := examplePlan.perform (softCalls.filter Call.isRequest)
    examplePlan.IsFresh ∧ examplePlan.schedule? = none ∧
      (∀ call ∈ softCalls, call.AvoidsMarkers) ∧ late.result = .ok () ∧
      early.plan.determine.result.map (·.order) = .ok ["compile", "pack", "deploy"] ∧
      late.plan.determine.result.map (·.order) = .ok ["pack", "compile", "deploy"] := by
  have avoids : (Resolver.ofDeclarations [.softDependency "deploy" "pack"]).AvoidsMarkers :=
    .of_mentionable (by decide)
  refine ⟨isFresh_new _ _, rfl, ?_, rfl, rfl, rfl⟩
  simp only [softCalls, List.forall_mem_cons]
  exact ⟨Call.avoidsMarkers_tasks avoids _ _, Call.avoidsMarkers_tasks avoids _ _, trivial,
    Call.avoidsMarkers_tasks avoids _ _, nofun⟩

/-- A migration is followed by a check, which is followed by a report. It comes to the first of two
batches, and the report to the second, when the schedule of both has been asked for. -/
def chainCalls : List Call :=
  let resolver := Resolver.ofDeclarations
    [.finalizer "migrate" "verify", .finalizer "verify" "report"]
  [.take resolver (.tasks ["compile"] none), .take resolver (.tasks ["test"] none), .determine,
    .take resolver (.tasks ["migrate"] (some (.ofPosition 0))),
    .take resolver (.tasks ["report"] (some (.ofPosition 1)))]

/-- The marker and the check are released together, and are placed in the order of the index. -/
example :
    (examplePlan.perform (chainCalls.filter Call.isRequest)).result = .ok () ∧
      (examplePlan.perform chainCalls).plan.determine.result.map (·.order) =
        .ok ["compile", "migrate", "verify", "report", "test"] ∧
      (examplePlan.perform (chainCalls.filter Call.isRequest)).plan.determine.result.map (·.order) =
        .ok ["compile", "migrate", "verify", "test", "report"] :=
  ⟨rfl, rfl, rfl⟩

end Plan

end TaskPlanner
