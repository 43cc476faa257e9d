import TaskPlanner.Proofs.Discovery.Findings
import TaskPlanner.Proofs.Plan.Editing
import TaskPlanner.Proofs.Plan.Foresight
import TaskPlanner.Proofs.Plan.SingleBatch

/-! Cutting a plan back, and requesting the same again. The items that were kept are finished, so
that walks do not look behind them: what was cut off comes back only if the requests lead to it
along items that were cut off as well. Dependencies stand in front of what needs them, but
finalizers stand behind what they finalize, where a cut can come in between. -/

set_option autoImplicit false

namespace TaskPlanner

namespace Plan

variable {base before after plan : Plan} {resolver : Resolver} {entries : List WorkItem}
  {submission : Submission} {submissions again : List Submission} {item : WorkItem} {count : Nat}

/-- The plans that successful requests make of `base`, with the items that were requested. The plan
may be put in order in between. -/
inductive Fills (resolver : Resolver) (base : Plan) : List WorkItem → Plan → Prop where
  | start : Fills resolver base [] base
  | take {entries : List WorkItem} {plan : Plan} {submission : Submission} :
      Fills resolver base entries plan → (∀ item ∈ submission.requested, item.isMarker = false) →
      (plan.take resolver submission).result = .ok () →
      Fills resolver base (entries ++ submission.requested) (plan.take resolver submission).plan
  | determine {entries : List WorkItem} {plan : Plan} :
      Fills resolver base entries plan → Fills resolver base entries plan.determine.plan

/-- Between two requests, the earlier ones have found what they lead to. -/
def Resumed (base : Plan) (resolver : Resolver) (entries : List WorkItem) (plan : Plan) : Prop :=
  Walk.Resumes base resolver entries { plan, queue := [] }

/-! ## Preparing requests and putting in order -/

/-- Nothing is different for an item that is not a marker, but for its batch. -/
structure SameWork (before after : Plan) : Prop where
  continues : before.Continues after
  listed : ∀ item ∈ after.index, item.isMarker = false → item ∈ before.index
  finished : ∀ item, item.isMarker = false →
    (after.node item).processed = (before.node item).processed
  relations : ∀ item, item.isMarker = false → after.relations item = before.relations item

theorem SameFindings.sameWork (same : before.SameFindings after) : before.SameWork after where
  continues :=
    ⟨same.accepts, same.cannotRun, fun item finished => (same.processed item).trans finished,
      fun _ member => same.index ▸ member⟩
  listed _ member _ := same.index ▸ member
  finished item _ := same.processed item
  relations item _ := same.relations item

theorem accepts_determine (plan : Plan) : plan.determine.plan.accepts = plan.accepts := by
  have determined := plan.determines
  generalize plan.determine = attempt at determined ⊢
  cases determined <;> rfl

/-- Putting a plan in order touches no item but markers. -/
theorem node_determine (plan : Plan) (unmarked : item.isMarker = false) :
    plan.determine.plan.node item = plan.node item := by
  refine determine_induction (·.node item = plan.node item) (fun inventory ordinal same => ?_) rfl
  have different : item ≠ .marker ordinal := by
    rintro rfl
    cases unmarked
  rw [Inventory.node_addMarker, if_neg different, same]

theorem sameWork_determine (plan : Plan) : plan.SameWork plan.determine.plan where
  continues :=
    ⟨plan.accepts_determine, plan.cannotRun_determine,
      fun item finished => determine_induction (fun inventory => (inventory.node item).processed = true)
        (fun _ _ => Catalog.update_keeps (fun node => node.processed = true) fun _ _ => rfl) finished,
      fun item member => determine_induction (item ∈ ·.index)
        (fun _ _ old => ItemSet.mem_insert.mpr (.inl old)) member⟩
  listed item member unmarked := by
    refine determine_induction (fun inventory => item ∈ inventory.index → item ∈ plan.index)
      (fun inventory ordinal old now => ?_) id member
    rcases ItemSet.mem_insert.mp now with earlier | rfl
    · exact old earlier
    · cases unmarked
  finished item unmarked := congrArg Node.processed (plan.node_determine unmarked)
  relations item unmarked := congrArg Node.relations (plan.node_determine unmarked)

/-- Walks go on from a plan that has found out nothing else since the last one. -/
theorem Resumed.prepare (resumed : Resumed base resolver entries before)
    (same : before.SameWork after) {requested : List WorkItem} {queue : List Visit}
    (unmarked : ∀ item ∈ requested, item.isMarker = false)
    (queued : ∀ item, item ∈ queue.map (·.item) ↔ item ∈ requested) :
    Walk.Resumes base resolver (entries ++ requested) { plan := after, queue } := by
  have covers : ∀ item, Walk.Covers { plan := before, queue := [] } item →
      Walk.Covers { plan := after, queue } item := by
    rintro item (processed | barred | impossible)
    · exact .inl (same.continues.kept item processed)
    · exact .inr (.inl ((same.continues.cannotRun item).trans barred))
    · exact absurd impossible List.not_mem_nil
  refine ⟨⟨nofun, List.nil_subset _, List.nodup_nil⟩,
    List.forall_mem_append.mpr ⟨resumed.requested, unmarked⟩,
    resumed.continues.trans same.continues, fun item work finished => ?_,
    fun item member work => ?_, nofun,
    fun item member => .inl (List.mem_append_right _ ((queued item).mp member)),
    fun item member => ?_, fun item work letsIn known => ?_⟩
  · rw [same.finished item work] at finished
    exact (resumed.finished item work finished).imp_right
      (.imp_right (same.continues.listed item))
  · exact (resumed.found item (same.listed item member work) work).imp_right
      (.mono (List.subset_append_left _ _))
  · rcases List.mem_append.mp member with earlier | now
    · exact covers item (resumed.covered item earlier)
    · exact .inr (.inr ((queued item).mpr now))
  · have finished := known.resolve_right List.not_mem_nil
    rw [same.finished item work] at finished
    obtain ⟨resolution, answered, related, dependencies, finalizers⟩ :=
      resumed.explored item work letsIn (.inl finished)
    exact ⟨resolution, answered, (same.relations item work).trans related,
      fun dependency member => covers dependency (dependencies dependency member),
      fun _ finalizer member => covers finalizer (finalizers finished finalizer member)⟩

/-! ## Requests -/

theorem resumed_nil (base : Plan) (resolver : Resolver) : Resumed base resolver [] base where
  returns := ⟨nofun, List.nil_subset _, List.nodup_nil⟩
  requested := nofun
  continues := .refl base
  finished _ _ := .inl
  found _ member _ := .inl member
  entered := nofun
  wanted := nofun
  covered := nofun
  explored item _ letsIn known := by
    have finished := known.resolve_right List.not_mem_nil
    cases letsIn.1.symm.trans finished

theorem Resumed.determine (resumed : Resumed base resolver entries plan) :
    Resumed base resolver entries plan.determine.plan := by
  have prepared : Walk.Resumes base resolver (entries ++ [])
      { plan := plan.determine.plan, queue := [] } :=
    resumed.prepare plan.sameWork_determine nofun fun _ => .rfl
  rwa [List.append_nil] at prepared

/-- A request succeeds, unless it finds a cycle, or an item about which the resolver knows
nothing. -/
theorem Resumed.take_cases (resumed : Resumed base resolver entries plan)
    (avoids : resolver.AvoidsMarkers) (unfinalized : plan.isFinalized = false)
    (unmarked : ∀ item ∈ submission.requested, item.isMarker = false) :
    (plan.take resolver submission).result = .ok () ∧
      Resumed base resolver (entries ++ submission.requested) (plan.take resolver submission).plan ∨
    (∃ report, (plan.take resolver submission).result = .error (.cycle report)) ∧
      base.FindsCycle resolver (entries ++ submission.requested) ∨
    ∃ item fault, base.Finds resolver (entries ++ submission.requested) item ∧
      resolver.answer item = .error fault := by
  obtain ⟨last, reaches, stops⟩ := exists_last_take resolver unfinalized submission
  have resumes := reaches.resumes avoids (resumed.prepare
    (sameFindings_prepare plan submission).sameWork unmarked fun _ => Submission.mem_map_visits)
  have disciplined := reaches.disciplined (disciplined_prepare plan resolver submission)
  refine (stops.cases_of_resumes avoids resumes disciplined).imp_left fun succeeded => ?_
  obtain ⟨ended, same⟩ := stops.of_ok succeeded
  refine ⟨succeeded, ?_⟩
  rw [same]
  exact resumes.rest ended

theorem Resumed.takeAll_cases (resumed : Resumed base resolver entries plan)
    (avoids : resolver.AvoidsMarkers) (unfinalized : plan.isFinalized = false)
    (unmarked : ∀ item ∈ submissions.flatMap Submission.requested, item.isMarker = false) :
    (takeAll resolver submissions plan).result = .ok () ∧
      Resumed base resolver (entries ++ submissions.flatMap Submission.requested)
        (takeAll resolver submissions plan).plan ∨
    (∃ report, (takeAll resolver submissions plan).result = .error (.cycle report)) ∧
      base.FindsCycle resolver (entries ++ submissions.flatMap Submission.requested) ∨
    ∃ item fault, base.Finds resolver (entries ++ submissions.flatMap Submission.requested) item ∧
      resolver.answer item = .error fault := by
  induction submissions generalizing plan entries with
  | nil =>
      rw [List.flatMap_nil, List.append_nil]
      exact .inl ⟨rfl, resumed⟩
  | cons submission rest ih =>
      rw [List.flatMap_cons] at unmarked ⊢
      rw [← List.append_assoc]
      obtain ⟨now, later⟩ := List.forall_mem_append.mp unmarked
      have larger := List.subset_append_left (entries ++ submission.requested)
        (rest.flatMap Submission.requested)
      unfold takeAll
      dsimp only
      rcases resumed.take_cases avoids unfinalized now with
        ⟨succeeded, next⟩ | ⟨⟨report, failed⟩, cyclic⟩ | ⟨item, fault, finds, failed⟩
      · rw [succeeded]
        exact ih next (take_isFinalized resolver unfinalized submission) later
      · rw [failed]
        exact .inr (.inl ⟨⟨report, rfl⟩, cyclic.mono larger⟩)
      · exact .inr (.inr ⟨item, fault, finds.mono larger, failed⟩)

/-! ## Plans that were filled -/

theorem Fills.unfinalized (fills : Fills resolver base entries plan)
    (unfinalized : base.isFinalized = false) : plan.isFinalized = false := by
  induction fills with
  | start => exact unfinalized
  | @take _ plan submission _ _ _ ih => exact take_isFinalized resolver ih submission
  | @determine _ plan _ ih => exact (plan.isFinalized_edited .determine).trans ih

theorem Fills.distinct (fills : Fills resolver base entries plan)
    (distinct : base.index.items.Nodup) : plan.index.items.Nodup := by
  induction fills with
  | start => exact distinct
  | @take _ _ submission _ _ _ ih => exact isKept_distinct.take ih resolver submission
  | determine _ ih => exact distinct_determine ih

theorem Fills.resumed (fills : Fills resolver base entries plan) (avoids : resolver.AvoidsMarkers) :
    Resumed base resolver entries plan := by
  induction fills with
  | start => exact resumed_nil base resolver
  | @take _ plan submission fills unmarked taken ih =>
      obtain ⟨last, reaches, ended, same⟩ := exists_last_of_take taken
      have resumes := reaches.resumes avoids (ih.prepare
        (sameFindings_prepare plan submission).sameWork unmarked fun _ => Submission.mem_map_visits)
      rw [same]
      exact resumes.rest ended
  | determine _ ih => exact ih.determine

theorem IsFresh.finds_iff (fresh : base.IsFresh) :
    base.Finds resolver entries item ↔ base.Needs resolver entries item :=
  ⟨Finds.needs fun _ letsIn => letsIn.2, Needs.finds fun other => (fresh.clean other).processed⟩

theorem Fills.mem_index_iff (fills : Fills resolver base entries plan) (fresh : base.IsFresh)
    (avoids : resolver.AvoidsMarkers) (unmarked : item.isMarker = false) :
    item ∈ plan.index ↔ base.Needs resolver entries item := by
  have resumed := fills.resumed avoids
  rw [← fresh.finds_iff, resumed.mem_index_iff avoids rfl unmarked]
  exact or_iff_right fresh.not_mem_index

/-! ## Plans that were cut back -/

theorem node_retainFirst (unfinalized : plan.isFinalized = false) (count : Nat) (item : WorkItem) :
    (plan.retainFirst count).plan.node item =
      if item ∈ plan.index.beyond count then (plan.node item).reset else plan.node item := by
  rw [retainFirst_eq unfinalized]
  dsimp only
  split
  next none =>
    rw [List.isEmpty_iff.mp none, if_neg List.not_mem_nil]
  next => exact Catalog.node_updateAll Node.reset (fun _ => rfl) item

theorem index_retainFirst (unfinalized : plan.isFinalized = false) (count : Nat) :
    (plan.retainFirst count).plan.index = plan.index.keepFirst count := by
  rw [retainFirst_eq unfinalized]
  dsimp only
  split
  next none =>
    have short : plan.index.items.length ≤ count := List.drop_eq_nil_iff.mp (List.isEmpty_iff.mp none)
    show plan.index = { items := plan.index.items.take count }
    rw [List.take_of_length_le short]
  next => rfl

theorem accepts_retainFirst (plan : Plan) (count : Nat) :
    (plan.retainFirst count).plan.accepts = plan.accepts := by
  unfold retainFirst
  split
  · rfl
  · dsimp only
    split <;> rfl

/-- What a walk may enter behind a cut, it might have entered in the beginning. -/
theorem Fills.admits_of_letsIn (fills : Fills resolver base entries plan)
    (avoids : resolver.AvoidsMarkers) (letsIn : (plan.retainFirst count).plan.LetsIn item) :
    base.Admits item := by
  obtain ⟨_, accepted, runnable⟩ := letsIn
  have continues := (fills.resumed avoids).continues
  constructor
  · rw [← continues.acceptsItem_eq item]
    unfold acceptsItem at accepted ⊢
    rwa [accepts_retainFirst] at accepted
  · rw [← continues.cannotRun item]
    exact (plan.cannotRun_edited (.retainFirst count) item).symm.trans runnable

theorem Fills.needs_of_finds (fills : Fills resolver base entries plan)
    (avoids : resolver.AvoidsMarkers)
    (finds : (plan.retainFirst count).plan.Finds resolver entries item) :
    base.Needs resolver entries item :=
  finds.needs fun _ letsIn => fills.admits_of_letsIn avoids letsIn

/-- Behind a cut, requests find nothing but what was cut off. -/
theorem Fills.mem_beyond_of_finds (fills : Fills resolver base entries plan) (fresh : base.IsFresh)
    (avoids : resolver.AvoidsMarkers)
    (finds : (plan.retainFirst count).plan.Finds resolver entries item) :
    item ∈ plan.index.beyond count := by
  have needs := fills.needs_of_finds avoids finds
  have finished := (fills.resumed avoids).processed_of_finds avoids rfl
    (fresh.finds_iff.mpr needs)
  have unfinished := finds.letsIn.1
  rw [node_retainFirst (fills.unfinalized fresh.unfinalized)] at unfinished
  by_contra kept
  rw [if_neg kept] at unfinished
  cases finished.symm.trans unfinished

/-- What was cut off may be entered again. -/
theorem Fills.letsIn_of_mem_beyond (fills : Fills resolver base entries plan) (fresh : base.IsFresh)
    (avoids : resolver.AvoidsMarkers) (unmarked : item.isMarker = false)
    (removed : item ∈ plan.index.beyond count) : (plan.retainFirst count).plan.LetsIn item := by
  have listed := (ItemSet.mem_iff_mem_keepFirst_or_mem_beyond count).mpr (.inr removed)
  have admits := ((fills.mem_index_iff fresh avoids unmarked).mp listed).admits
  have continues := (fills.resumed avoids).continues
  refine ⟨?_, ?_, ?_⟩
  · rw [node_retainFirst (fills.unfinalized fresh.unfinalized), if_pos removed]
    rfl
  · unfold acceptsItem
    rw [accepts_retainFirst]
    exact (continues.acceptsItem_eq item).trans admits.1
  · exact ((plan.cannotRun_edited (.retainFirst count) item).trans
      (continues.cannotRun item)).trans admits.2

/-- If nothing that was kept leads to what was cut off, the requests find all of that. -/
theorem Fills.finds_of_separate (fills : Fills resolver base entries plan) (fresh : base.IsFresh)
    (avoids : resolver.AvoidsMarkers)
    (separate : ∀ source ∈ plan.index.keepFirst count, ∀ target ∈ plan.index.beyond count,
      ¬ resolver.Leads source target)
    (unmarked : item.isMarker = false) (removed : item ∈ plan.index.beyond count) :
    (plan.retainFirst count).plan.Finds resolver entries item := by
  have listed := (ItemSet.mem_iff_mem_keepFirst_or_mem_beyond count).mpr (.inr removed)
  have requested := (fills.resumed avoids).requested
  have needs := (fills.mem_index_iff fresh avoids unmarked).mp listed
  induction needs with
  | entry member _ => exact .entry member (fills.letsIn_of_mem_beyond fresh avoids unmarked removed)
  | @successor source target needs leads _ ih =>
      have work := needs.unmarked avoids requested
      have indexed := (fills.mem_index_iff fresh avoids work).mpr needs
      rcases (ItemSet.mem_iff_mem_keepFirst_or_mem_beyond count).mp indexed with kept | cut
      · exact absurd leads (separate source kept target removed)
      · exact .successor (ih work cut indexed) leads
          (fills.letsIn_of_mem_beyond fresh avoids unmarked removed)

/-! ## Requesting the same again -/

/-- Cut the plan back to its first `count` items, and take requests anew. -/
def resubmit (resolver : Resolver) (plan : Plan) (count : Nat) (again : List Submission) :
    Attempt Unit :=
  takeAll resolver again (plan.retainFirst count).plan

/-- What was requested before can be requested again, unless a part of it is cyclic. -/
theorem Fills.resubmit_cases (fills : Fills resolver base entries plan) (fresh : base.IsFresh)
    (avoids : resolver.AvoidsMarkers) (count : Nat)
    (same : ∀ item, item ∈ again.flatMap Submission.requested ↔ item ∈ entries) :
    (plan.resubmit resolver count again).result = .ok () ∧
      Resumed (plan.retainFirst count).plan resolver (again.flatMap Submission.requested)
        (plan.resubmit resolver count again).plan ∨
    (∃ report, (plan.resubmit resolver count again).result = .error (.cycle report)) ∧
      ∃ item, Relation.TransGen (base.Precedes resolver entries) item item := by
  have resumed := fills.resumed avoids
  have unfinalized : (plan.retainFirst count).plan.isFinalized = false :=
    (plan.isFinalized_edited (.retainFirst count)).trans (fills.unfinalized fresh.unfinalized)
  have unmarked : ∀ item ∈ again.flatMap Submission.requested, item.isMarker = false :=
    fun item member => resumed.requested item ((same item).mp member)
  have needs : ∀ item, (plan.retainFirst count).plan.Finds resolver
      (again.flatMap Submission.requested) item → base.Needs resolver entries item :=
    fun item finds => fills.needs_of_finds avoids (finds.mono fun other => (same other).mp)
  rcases (resumed_nil (plan.retainFirst count).plan resolver).takeAll_cases avoids unfinalized
    unmarked with taken | ⟨failed, items, cycle, found⟩ | ⟨item, fault, finds, failed⟩
  · exact .inl taken
  · exact .inr ⟨failed, Walk.exists_transGen_of_isCycle cycle fun item member =>
      needs item (found item member)⟩
  · -- The resolver has been asked about the item before, and it had an answer.
    obtain ⟨resolution, answered⟩ := resumed.exists_answer avoids rfl
      (fresh.finds_iff.mpr (needs item finds))
    cases answered.symm.trans failed

theorem Fills.mem_index_resubmit_iff (fills : Fills resolver base entries plan)
    (fresh : base.IsFresh) (avoids : resolver.AvoidsMarkers)
    (same : ∀ item, item ∈ again.flatMap Submission.requested ↔ item ∈ entries)
    (succeeded : (plan.resubmit resolver count again).result = .ok ())
    (unmarked : item.isMarker = false) :
    item ∈ (plan.resubmit resolver count again).plan.index ↔
      item ∈ plan.index.keepFirst count ∨
        (plan.retainFirst count).plan.Finds resolver entries item := by
  rcases fills.resubmit_cases fresh avoids count same with ⟨_, resumed⟩ | ⟨⟨report, failed⟩, _⟩
  · rw [resumed.mem_index_iff avoids rfl unmarked,
      index_retainFirst (fills.unfinalized fresh.unfinalized)]
    exact or_congr_right ⟨.mono fun other => (same other).mp, .mono fun other => (same other).mpr⟩
  · cases succeeded.symm.trans failed

/-- The plan is what it was before, if the requests find everything that was cut off. -/
theorem Fills.restores_of_finds (fills : Fills resolver base entries plan) (fresh : base.IsFresh)
    (avoids : resolver.AvoidsMarkers)
    (same : ∀ item, item ∈ again.flatMap Submission.requested ↔ item ∈ entries)
    (succeeded : (plan.resubmit resolver count again).result = .ok ())
    (found : ∀ item ∈ plan.index.beyond count, item.isMarker = false →
      (plan.retainFirst count).plan.Finds resolver entries item)
    (unmarked : item.isMarker = false) :
    item ∈ (plan.resubmit resolver count again).plan.index ↔ item ∈ plan.index := by
  rw [fills.mem_index_resubmit_iff fresh avoids same succeeded unmarked]
  exact (or_congr_right ⟨fills.mem_beyond_of_finds fresh avoids,
    fun removed => found item removed unmarked⟩).trans
      (ItemSet.mem_iff_mem_keepFirst_or_mem_beyond count).symm

/-- Requesting the same again does not always restore a plan that was cut back. The requests succeed
unless they are cyclic. They bring back what they find behind the cut, which is what was cut off as
far as they lead to it along items that were cut off. So the plan is what it was before if they find
all of that, for instance if nothing that was kept leads to what was cut off. -/
theorem resubmit_restores_iff (fresh : base.IsFresh) (avoids : resolver.AvoidsMarkers)
    (fills : Fills resolver base entries plan) (count : Nat)
    (same : ∀ item, item ∈ again.flatMap Submission.requested ↔ item ∈ entries) :
    let cut := (plan.retainFirst count).plan
    let attempt := plan.resubmit resolver count again
    (attempt.result = .ok () ∨ (∃ report, attempt.result = .error (.cycle report)) ∧
      ∃ item, Relation.TransGen (base.Precedes resolver entries) item item) ∧
    (attempt.result = .ok () →
      (∀ item, item.isMarker = false → (item ∈ attempt.plan.index ↔
        item ∈ plan.index.keepFirst count ∨ cut.Finds resolver entries item)) ∧
      ((∀ item, item.isMarker = false → (item ∈ attempt.plan.index ↔ item ∈ plan.index)) ↔
        ∀ item ∈ plan.index.beyond count, item.isMarker = false →
          cut.Finds resolver entries item)) ∧
    (∀ item, cut.Finds resolver entries item → item ∈ plan.index.beyond count) ∧
    ((∀ source ∈ plan.index.keepFirst count, ∀ target ∈ plan.index.beyond count,
      ¬ resolver.Leads source target) →
        ∀ item ∈ plan.index.beyond count, item.isMarker = false →
          cut.Finds resolver entries item) := by
  dsimp only
  have distinct : plan.index.items.Nodup := by
    apply fills.distinct
    rw [fresh.items_index]
    exact List.nodup_nil
  refine ⟨(fills.resubmit_cases fresh avoids count same).imp_left And.left, fun succeeded => ?_,
    fun item => fills.mem_beyond_of_finds fresh avoids, fun separate item removed unmarked =>
      fills.finds_of_separate fresh avoids separate unmarked removed⟩
  have indexed := fun (item : WorkItem) (unmarked : item.isMarker = false) =>
    fills.mem_index_resubmit_iff fresh avoids same succeeded unmarked
  refine ⟨indexed, fun restored item removed unmarked => ?_, fun found item unmarked =>
    fills.restores_of_finds fresh avoids same succeeded found unmarked⟩
  have listed := (ItemSet.mem_iff_mem_keepFirst_or_mem_beyond count).mpr (.inr removed)
  have back := (indexed item unmarked).mp ((restored item unmarked).mpr listed)
  exact back.resolve_left fun kept =>
    List.disjoint_take_drop distinct (Nat.le_refl count) kept removed

/-! ## Without finalizers -/

theorem fills_takeAll (resolver : Resolver) (base : Plan)
    (unmarked : ∀ item ∈ submissions.flatMap Submission.requested, item.isMarker = false)
    (taken : (takeAll resolver submissions base).result = .ok ()) :
    Fills resolver base (submissions.flatMap Submission.requested)
      (takeAll resolver submissions base).plan := by
  refine takeAll_induction (Fills resolver base) (fun _ _ submission member fills succeeded => ?_)
    .start taken
  exact fills.take (fun item requested =>
    unmarked item (List.mem_flatMap_of_mem member requested)) succeeded

theorem IsFresh.isPostOrdered_takeAll (fresh : base.IsFresh) (lacks : resolver.LacksFinalizers)
    (taken : (takeAll resolver submissions base).result = .ok ()) :
    (takeAll resolver submissions base).plan.IsPostOrdered resolver ∧
      Explored base resolver (submissions.flatMap Submission.requested)
        (takeAll resolver submissions base).plan := by
  refine takeAll_induction (fun entries other => other.IsPostOrdered resolver ∧
    Explored base resolver entries other) ?_
    ⟨fresh.isPostOrdered resolver, fresh.explored resolver⟩ taken
  intro _ _ submission _ ⟨ordered, explored⟩ succeeded
  exact ⟨ordered.take lacks explored succeeded, explored.take succeeded⟩

/-- In post-order, an item of the index stands behind the items of the index that it waits for. -/
theorem IsPostOrdered.idxOf_lt (ordered : plan.IsPostOrdered resolver)
    (explored : Explored base resolver entries plan) {source target : WorkItem}
    (orders : resolver.Orders source target) (sourceIndexed : source ∈ plan.index)
    (targetIndexed : target ∈ plan.index) :
    plan.index.items.idxOf source < plan.index.items.idxOf target := by
  obtain ⟨earlier, later, split⟩ := List.append_of_mem targetIndexed
  have before := (ordered earlier target later split source orders).resolve_right
    (explored.not_leavesOut sourceIndexed)
  have distinct : (earlier ++ target :: later).Nodup := split ▸ explored.consistent.distinct
  have behind : target ∉ earlier := fun member =>
    (List.nodup_append.mp distinct).2.2 target member target List.mem_cons_self rfl
  rw [split, List.idxOf_append_of_mem before, List.idxOf_append_of_notMem behind]
  exact Nat.lt_add_right _ (List.idxOf_lt_length_of_mem before)

theorem IsPostOrdered.acyclic (ordered : plan.IsPostOrdered resolver)
    (explored : Explored base resolver entries plan) (item : WorkItem) :
    ¬ Relation.TransGen (base.Precedes resolver entries) item item := by
  intro cycle
  have climbs : Relation.TransGen (· < ·) (plan.index.items.idxOf item)
      (plan.index.items.idxOf item) :=
    cycle.lift plan.index.items.idxOf fun source target ⟨sourceNeeds, targetNeeds, orders⟩ =>
      ordered.idxOf_lt explored orders ((explored.mem_index_iff rfl).mpr sourceNeeds)
        ((explored.mem_index_iff rfl).mpr targetNeeds)
  rw [Relation.transGen_eq_self] at climbs
  exact Nat.lt_irrefl _ climbs

/-- In post-order, nothing in front of a cut leads behind it. -/
theorem IsPostOrdered.separate (ordered : plan.IsPostOrdered resolver)
    (lacks : resolver.LacksFinalizers) (explored : Explored base resolver entries plan)
    {source target : WorkItem} (kept : source ∈ plan.index.keepFirst count)
    (removed : target ∈ plan.index.beyond count) : ¬ resolver.Leads source target := by
  rintro ⟨resolution, answered, dependency | finalizer⟩
  · have sourceIndexed := (ItemSet.mem_iff_mem_keepFirst_or_mem_beyond count).mpr (.inl kept)
    have targetIndexed := (ItemSet.mem_iff_mem_keepFirst_or_mem_beyond count).mpr (.inr removed)
    have order := ordered.idxOf_lt explored (.inl ⟨resolution, answered, dependency⟩) targetIndexed
      sourceIndexed
    have front := (List.mem_take_iff_idxOf_lt targetIndexed).mpr
      (order.trans ((List.mem_take_iff_idxOf_lt sourceIndexed).mp kept))
    exact List.disjoint_take_drop explored.consistent.distinct (Nat.le_refl count) front removed
  · rw [lacks source resolution answered] at finalizer
    cases finalizer

/-- If the resolver reports no finalizers, requesting the same again restores a plan that was cut
back, wherever the cut comes. -/
theorem resubmit_restores (fresh : base.IsFresh) (avoids : resolver.AvoidsMarkers)
    (lacks : resolver.LacksFinalizers)
    (unmarked : ∀ item ∈ submissions.flatMap Submission.requested, item.isMarker = false)
    (taken : (takeAll resolver submissions base).result = .ok ()) (count : Nat)
    (same : ∀ item, item ∈ again.flatMap Submission.requested ↔
      item ∈ submissions.flatMap Submission.requested) :
    ((takeAll resolver submissions base).plan.resubmit resolver count again).result = .ok () ∧
      ∀ item, item.isMarker = false →
        (item ∈ ((takeAll resolver submissions base).plan.resubmit resolver count again).plan.index ↔
          item ∈ (takeAll resolver submissions base).plan.index) := by
  obtain ⟨ordered, explored⟩ := fresh.isPostOrdered_takeAll lacks taken
  have fills := fills_takeAll resolver base unmarked taken
  generalize (takeAll resolver submissions base).plan = plan at ordered explored fills ⊢
  have succeeded : (plan.resubmit resolver count again).result = .ok () := by
    rcases fills.resubmit_cases fresh avoids count same with ⟨succeeded, _⟩ | ⟨_, item, cycle⟩
    · exact succeeded
    · exact absurd cycle (ordered.acyclic explored item)
  have found : ∀ item ∈ plan.index.beyond count, item.isMarker = false → _ :=
    fun item removed work => fills.finds_of_separate fresh avoids
      (fun _ kept _ removed => ordered.separate lacks explored kept removed) work removed
  exact ⟨succeeded, fun item => fills.restores_of_finds fresh avoids same succeeded found⟩

/-! ## Examples -/

/-- The example build, compiled and tested in two batches, and put in order. -/
def orderedBatches : Plan :=
  ((examplePlan.take exampleResolver (.tasks ["compile"] none)).plan.take exampleResolver
    (.tasks ["test"] none)).plan.determine.plan

theorem fills_orderedBatches :
    Fills exampleResolver examplePlan [.task "compile", .task "test"] orderedBatches := by
  have first : Fills exampleResolver examplePlan [.task "compile"] _ :=
    Fills.start.take (Submission.tasks_unmarked ["compile"] none) rfl
  exact (first.take (Submission.tasks_unmarked ["test"] none) rfl).determine

theorem mem_exampleBatches (item : WorkItem) :
    item ∈ exampleBatches.flatMap Submission.requested ↔
      item ∈ [WorkItem.task "compile", .task "test"] := .rfl

/-- The cut comes behind the cleanup, and nothing in front of it needs the tests. So the tests come
back. The marker of their batch was cut off as well, and waits for the next ordering. -/
theorem resubmit_restores_orderedBatches :
    orderedBatches.index.items =
        [.task "compile", .task "cleanup", .task "test", .marker (.ofPosition 1)] ∧
      (orderedBatches.resubmit exampleResolver 2 exampleBatches).result = .ok () ∧
      (∀ item, item.isMarker = false →
        (item ∈ (orderedBatches.resubmit exampleResolver 2 exampleBatches).plan.index ↔
          item ∈ orderedBatches.index)) := by
  obtain ⟨_, restores, _, finds⟩ := resubmit_restores_iff (isFresh_new _ _)
    avoidsMarkers_exampleResolver fills_orderedBatches 2 mem_exampleBatches
  have taken : (orderedBatches.resubmit exampleResolver 2 exampleBatches).result = .ok () := rfl
  refine ⟨rfl, taken, (restores taken).2.mpr (finds fun source _ target cut leads => ?_)⟩
  have mentioned : ∀ other ∈ orderedBatches.index.beyond 2, other ∉ exampleResolver.mentionable := by
    decide
  exact mentioned target cut leads.mem_mentionable

/-- If the cut comes in front of the cleanup, which follows compiling, the cleanup does not come
back: compiling was kept, and nothing else leads to the cleanup. -/
theorem not_restored_orderedBatches :
    examplePlan.IsFresh ∧ exampleResolver.AvoidsMarkers ∧
      Fills exampleResolver examplePlan [.task "compile", .task "test"] orderedBatches ∧
      (∀ item, item ∈ exampleBatches.flatMap Submission.requested ↔
        item ∈ [WorkItem.task "compile", .task "test"]) ∧
      (orderedBatches.resubmit exampleResolver 1 exampleBatches).result = .ok () ∧
      ¬ ∀ item, item.isMarker = false →
        (item ∈ (orderedBatches.resubmit exampleResolver 1 exampleBatches).plan.index ↔
          item ∈ orderedBatches.index) := by
  refine ⟨isFresh_new _ _, avoidsMarkers_exampleResolver, fills_orderedBatches, mem_exampleBatches,
    rfl, fun restored => ?_⟩
  have listed : .task "cleanup" ∈ orderedBatches.index := by decide
  have lost : .task "cleanup" ∉
      (orderedBatches.resubmit exampleResolver 1 exampleBatches).plan.index := by decide
  exact lost ((restored (.task "cleanup") rfl).mpr listed)

end Plan

end TaskPlanner
