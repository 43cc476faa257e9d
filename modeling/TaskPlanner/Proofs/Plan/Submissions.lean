import TaskPlanner.Proofs.Discovery.Exploration
import TaskPlanner.Proofs.Discovery.Termination

/-! Sequences of requests to one plan. Each request is prepared in the plan, and then expanded
by a walk that takes up what earlier walks have found. -/

set_option autoImplicit false

namespace TaskPlanner

/-- The ordinal of a batch among those that name none. The last ordinal is that of all further
batches. -/
def Ordinal.ofPosition (position : Nat) : Ordinal := ⟨min position 4294967295, by omega⟩

namespace Ordinal

variable {earlier later : Nat}

theorem next_ofPosition (position : Nat) : (ofPosition position).next = ofPosition (position + 1) := by
  unfold next ofPosition
  split
  next fits => exact Fin.ext (by dsimp only at fits ⊢; omega)
  next full => exact Fin.ext (by dsimp only at full ⊢; omega)

theorem ofPosition_le (order : earlier ≤ later) : ofPosition earlier ≤ ofPosition later :=
  Fin.le_def.mpr (by unfold ofPosition; dsimp only; omega)

theorem ofPosition_lt (order : earlier < later) (fits : later < 4294967296) :
    ofPosition earlier < ofPosition later :=
  Fin.lt_def.mpr (by unfold ofPosition; dsimp only; omega)

end Ordinal

theorem WorkItem.arranged_eq_nil {items : List WorkItem} : arranged items = [] ↔ items = [] := by
  simp only [List.eq_nil_iff_forall_not_mem, mem_arranged]

/-- A request for tasks of the build at hand, or for items of any kind. -/
inductive Submission where
  | tasks (names : List String) (ordinal? : Option Ordinal)
  | items (entries : List WorkItem) (ordinal? : Option Ordinal)
deriving Repr

/-- The requested items. -/
def Submission.requested : Submission → List WorkItem
  | tasks names _ => names.map WorkItem.task
  | items entries _ => entries

def Submission.ordinal? : Submission → Option Ordinal
  | tasks _ ordinal? => ordinal?
  | items _ ordinal? => ordinal?

/-- The visits that expand a request. -/
def Submission.visits (submission : Submission) : List Visit :=
  (WorkItem.arranged submission.requested).map fun item => ⟨item, .entry⟩

theorem Submission.mem_visits {submission : Submission} {visit : Visit} :
    visit ∈ submission.visits ↔ visit.item ∈ submission.requested ∧ visit.link = .entry := by
  unfold visits
  rw [List.mem_map]
  constructor
  · rintro ⟨item, member, rfl⟩
    exact ⟨WorkItem.mem_arranged.mp member, rfl⟩
  · obtain ⟨item, link⟩ := visit
    rintro ⟨member, rfl⟩
    exact ⟨item, WorkItem.mem_arranged.mpr member, rfl⟩

theorem Submission.mem_map_visits {submission : Submission} {item : WorkItem} :
    item ∈ submission.visits.map (·.item) ↔ item ∈ submission.requested := by
  constructor
  · intro member
    obtain ⟨visit, listed, rfl⟩ := List.mem_map.mp member
    exact (Submission.mem_visits.mp listed).1
  · intro requested
    exact List.mem_map.mpr ⟨⟨item, .entry⟩, Submission.mem_visits.mpr ⟨requested, rfl⟩, rfl⟩

theorem Submission.tasks_unmarked (names : List String) (ordinal? : Option Ordinal) :
    ∀ item ∈ (Submission.tasks names ordinal?).requested, item.isMarker = false := by
  intro item member
  obtain ⟨name, _, rfl⟩ := List.mem_map.mp member
  rfl

namespace Plan

/-- Take one request. -/
def take (resolver : Resolver) (plan : Plan) : Submission → Attempt Unit
  | .tasks names ordinal? => plan.submit resolver names ordinal?
  | .items entries ordinal? => plan.addEntries resolver entries ordinal?

/-- Take requests in order, up to the first that fails. -/
def takeAll (resolver : Resolver) : List Submission → Plan → Attempt Unit
  | [], plan => ⟨.ok (), plan⟩
  | submission :: rest, plan =>
      let attempt := plan.take resolver submission
      match attempt.result with
      | .error error => ⟨.error error, attempt.plan⟩
      | .ok () => takeAll resolver rest attempt.plan

/-- Nothing was requested since the plan was made or closed. What ran in earlier plans may be
barred from running again. -/
structure IsFresh (plan : Plan) : Prop where
  unfinalized : plan.isFinalized = false
  inventory : plan.toInventory = { catalog := plan.catalog }
  clean : ∀ item, (plan.node item).IsClean

/-! ## Preparing a request -/

/-- The batch that a request is for. -/
def ordinalFor (plan : Plan) (submission : Submission) : Ordinal :=
  submission.ordinal?.getD plan.nextOrdinal

/-- Enter the items of a request into their batch. -/
def requestAll (plan : Plan) (items : List WorkItem) (ordinal? : Option Ordinal) : Plan :=
  let ordinal := ordinal?.getD plan.nextOrdinal
  (WorkItem.arranged items).foldl (request ordinal) (plan.openBatch ordinal)

/-- Enter a request into the plan. -/
def prepare (plan : Plan) : Submission → Plan
  | .tasks names ordinal? =>
      (plan.mention (names.map WorkItem.task)).requestAll (names.map WorkItem.task) ordinal?
  | .items entries ordinal? => plan.requestAll entries ordinal?

variable {plan before middle after base : Plan} {resolver : Resolver} {entries : List WorkItem}
  {submission : Submission}

/-- A request is prepared and then expanded. -/
theorem take_eq (unfinalized : plan.isFinalized = false) (submission : Submission) :
    plan.take resolver submission =
      (plan.prepare submission).expand resolver submission.visits := by
  have entered : ∀ (plan : Plan) (entries : List WorkItem) (ordinal? : Option Ordinal),
      plan.isFinalized = false → plan.addEntries resolver entries ordinal? =
        (plan.requestAll entries ordinal?).expand resolver
          ((WorkItem.arranged entries).map fun item => ⟨item, .entry⟩) := by
    intro plan entries ordinal? unfinalized
    unfold addEntries
    rw [unfinalized]
    rfl
  cases submission with
  | tasks names ordinal? =>
      show plan.submit resolver names ordinal? = _
      unfold submit
      rw [unfinalized]
      exact entered _ _ ordinal? unfinalized
  | items entries ordinal? => exact entered plan entries ordinal? unfinalized

theorem take_of_isFinalized (finalized : plan.isFinalized = true) (resolver : Resolver)
    (submission : Submission) :
    plan.take resolver submission = ⟨.error .alreadyFinalized, plan⟩ := by
  cases submission with
  | tasks names ordinal? =>
      show plan.submit resolver names ordinal? = _
      unfold submit
      rw [if_pos finalized]
  | items entries ordinal? =>
      show plan.addEntries resolver entries ordinal? = _
      unfold addEntries
      rw [if_pos finalized]

/-- A plan that was handed out says so when it refuses a request. -/
theorem unfinalized_of_take {resolver : Resolver} {submission : Submission}
    (taken : (plan.take resolver submission).result ≠ .error .alreadyFinalized) :
    plan.isFinalized = false := by
  cases finalized : plan.isFinalized with
  | true =>
      rw [take_of_isFinalized finalized] at taken
      exact absurd rfl taken
  | false => rfl

theorem unfinalized_of_taken {resolver : Resolver} {submission : Submission}
    (taken : (plan.take resolver submission).result = .ok ()) : plan.isFinalized = false := by
  apply unfinalized_of_take
  rw [taken]
  exact nofun

theorem foldl_request_induction (property : Plan → Prop) {ordinal : Ordinal}
    {items : List WorkItem} (request : ∀ plan, ∀ item ∈ items,
      property plan → property (plan.request ordinal item)) (holds : property plan) :
    property (items.foldl (Plan.request ordinal) plan) := by
  induction items generalizing plan with
  | nil => exact holds
  | cons item rest ih =>
      exact ih (fun plan other member => request plan other (List.mem_cons_of_mem _ member))
        (request plan item List.mem_cons_self holds)

/-- A preparation mentions items, opens the batch and enters the requested items. -/
theorem exists_prepare_eq (plan : Plan) (submission : Submission) :
    ∃ items, plan.prepare submission =
      (WorkItem.arranged submission.requested).foldl (request (plan.ordinalFor submission))
        ((plan.mention items).openBatch (plan.ordinalFor submission)) := by
  cases submission with
  | tasks names ordinal? => exact ⟨_, rfl⟩
  | items entries ordinal? => exact ⟨[], rfl⟩

/-- What the parts of a preparation keep, the preparation keeps. -/
theorem prepare_induction (property : Plan → Prop) (holds : property plan)
    (mention : ∀ plan items, property plan → property (plan.mention items))
    (openBatch : ∀ plan ordinal, property plan → property (plan.openBatch ordinal))
    (request : ∀ other, ∀ item ∈ submission.requested,
      property other → property (other.request (plan.ordinalFor submission) item)) :
    property (plan.prepare submission) := by
  obtain ⟨items, same⟩ := plan.exists_prepare_eq submission
  rw [same]
  exact foldl_request_induction property
    (fun other item member => request other item (WorkItem.mem_arranged.mp member))
    (openBatch _ _ (mention plan items holds))

/-- Requests by themselves find out nothing: what was discovered is the same before and after. -/
structure SameFindings (before after : Plan) : Prop where
  accepts : after.accepts = before.accepts
  isFinalized : after.isFinalized = before.isFinalized
  index : after.index = before.index
  filtered : after.filtered = before.filtered
  inquiries : after.inquiries = before.inquiries
  processed : ∀ item, (after.node item).processed = (before.node item).processed
  cannotRun : ∀ item, (after.node item).cannotRun = (before.node item).cannotRun
  relations : ∀ item, after.relations item = before.relations item

theorem SameFindings.refl (plan : Plan) : plan.SameFindings plan :=
  ⟨rfl, rfl, rfl, rfl, rfl, fun _ => rfl, fun _ => rfl, fun _ => rfl⟩

theorem SameFindings.trans (first : before.SameFindings middle)
    (second : middle.SameFindings after) : before.SameFindings after :=
  ⟨second.accepts.trans first.accepts, second.isFinalized.trans first.isFinalized,
    second.index.trans first.index, second.filtered.trans first.filtered,
    second.inquiries.trans first.inquiries,
    fun item => (second.processed item).trans (first.processed item),
    fun item => (second.cannotRun item).trans (first.cannotRun item),
    fun item => (second.relations item).trans (first.relations item)⟩

theorem sameFindings_request (plan : Plan) (ordinal : Ordinal) (item : WorkItem) :
    plan.SameFindings (plan.request ordinal item) where
  accepts := rfl
  isFinalized := rfl
  index := rfl
  filtered := rfl
  inquiries := rfl
  processed other :=
    Catalog.update_keeps (fun node => node.processed = (plan.node other).processed)
      (fun node => (node.processed_join _).trans) rfl
  cannotRun other :=
    Catalog.update_keeps (fun node => node.cannotRun = (plan.node other).cannotRun)
      (fun node => (node.cannotRun_join _).trans) rfl
  relations other :=
    Catalog.update_keeps (fun node => node.relations = plan.relations other)
      (fun node => (node.relations_join _).trans) rfl

@[simp] theorem node_mention (plan : Plan) (items : List WorkItem) (item : WorkItem) :
    (plan.mention items).node item = plan.node item :=
  plan.catalog.node_internAll items item

theorem sameFindings_mention (plan : Plan) (items : List WorkItem) :
    plan.SameFindings (plan.mention items) :=
  ⟨rfl, rfl, rfl, rfl, rfl, fun item => by rw [node_mention], fun item => by rw [node_mention],
    fun item => congrArg Node.relations (plan.node_mention items item)⟩

theorem sameFindings_prepare (plan : Plan) (submission : Submission) :
    plan.SameFindings (plan.prepare submission) :=
  prepare_induction plan.SameFindings (.refl plan)
    (fun other items same => same.trans (sameFindings_mention other items))
    (fun other _ same => same.trans { SameFindings.refl other with })
    fun other item _ same => same.trans (sameFindings_request other _ item)

/-! ## Expanding a request -/

/-- Between two requests, what the earlier ones asked for has been found. -/
def Explored (base : Plan) (resolver : Resolver) (entries : List WorkItem) (plan : Plan) : Prop :=
  Walk.Explores base resolver entries { plan, queue := [] }

theorem IsFresh.items_index (fresh : base.IsFresh) : base.index.items = [] :=
  congrArg (fun found => found.index.items) fresh.inventory

theorem IsFresh.not_mem_index (fresh : base.IsFresh) {item : WorkItem} : item ∉ base.index := by
  rw [ItemSet.mem_def, fresh.items_index]
  exact List.not_mem_nil

theorem IsFresh.explored (fresh : base.IsFresh) (resolver : Resolver) :
    Explored base resolver [] base := by
  have index := fresh.items_index
  have filtered : base.filtered.items = [] :=
    congrArg (fun found => found.filtered.items) fresh.inventory
  have unindexed : ∀ item, item ∉ base.index := fun _ => fresh.not_mem_index
  have unfiltered : ∀ item, item ∉ base.filtered := fun item => by
    rw [ItemSet.mem_def, filtered]
    exact List.not_mem_nil
  have unentered : ∀ item : WorkItem, item ∉ ([] : List WorkItem) := fun _ => List.not_mem_nil
  refine ⟨⟨rfl, fun _ => rfl, fun item => ?_, fun item known => ?_, fun item _ _ => ?_,
    fun item inside => absurd inside (unentered item), List.nil_subset _, List.nodup_nil, ?_,
    [], (List.append_nil _).symm, ?_⟩, ⟨fun item known => ?_, fun item queued => ?_,
    fun item listed => absurd listed (unfiltered item)⟩,
    ⟨fun item requested => absurd requested (unentered item), fun item known => ?_,
    fun item listed => absurd listed (unindexed item)⟩⟩
  · rw [(fresh.clean item).processed]
    exact ⟨Bool.noConfusion, fun either => (either.elim (unindexed item) (unfiltered item)).elim⟩
  · exact (known.elim (unindexed item) (unentered item)).elim
  · exact (fresh.clean item).relations
  · rw [index]
    exact List.nodup_nil
  · rw [index]
    exact .nil
  · exact (known.elim (unindexed item) (unentered item)).elim
  · exact absurd queued (unentered item)
  · exact (known.elim (unindexed item) (unentered item)).elim

/-- A request is expanded from what is known. -/
theorem Explored.prepare (explored : Explored base resolver entries plan)
    (submission : Submission) :
    Walk.Explores base resolver (entries ++ submission.requested)
      { plan := plan.prepare submission, queue := submission.visits } := by
  have same := sameFindings_prepare plan submission
  have larger : entries ⊆ entries ++ submission.requested := List.subset_append_left _ _
  have covers : ∀ item, Walk.Covers { plan, queue := [] } item → Walk.Covers
      { plan := plan.prepare submission, queue := submission.visits } item := by
    rintro item (processed | barred | impossible)
    · exact .inl ((same.processed item).trans processed)
    · exact .inr (.inl ((same.cannotRun item).trans barred))
    · exact absurd impossible List.not_mem_nil
  have known : ∀ item, item ∈ (plan.prepare submission).index ∨ item ∈ ([] : List WorkItem) →
      item ∈ plan.index ∨ item ∈ ([] : List WorkItem) := by
    rw [same.index]
    exact fun _ => id
  obtain ⟨consistent, sound, covered⟩ := explored
  refine ⟨⟨same.accepts.trans consistent.accepts,
    fun item => (same.cannotRun item).trans (consistent.cannotRun item), fun item => ?_,
    fun item present => ?_, fun item unindexed unentered => ?_,
    fun item inside => absurd inside List.not_mem_nil, List.nil_subset _, List.nodup_nil, ?_, ?_⟩,
    ⟨fun item present => (sound.needed item (known item present)).mono larger,
      fun item member => .inl (List.mem_append_right _ (Submission.mem_map_visits.mp member)),
      fun item member => ?_⟩,
    ⟨fun item requested => ?_, fun item present dependency member => ?_,
      fun item listed finalizer member => ?_⟩⟩
  · rw [same.processed, same.index, same.filtered]
    exact consistent.processed item
  · rw [same.relations]
    exact consistent.relations item (known item present)
  · rw [same.index] at unindexed
    rw [same.relations]
    exact consistent.unrelated item unindexed unentered
  · rw [same.index]
    exact consistent.distinct
  · rw [same.inquiries, same.index]
    exact consistent.asked
  · rw [same.filtered] at member
    obtain ⟨refused, runnable, wants⟩ := sound.rejected item member
    exact ⟨refused, runnable, wants.mono larger⟩
  · rcases List.mem_append.mp requested with earlier | now
    · exact covers item (covered.entries item earlier)
    · exact .inr (.inr (Submission.mem_map_visits.mpr now))
  · rw [same.relations] at member
    exact covers _ (covered.dependencies item (known item present) dependency member)
  · rw [same.index] at listed
    rw [same.relations] at member
    exact covers _ (covered.finalizers item listed finalizer member)

/-- A walk at its end leaves a plan that is ready for the next request. -/
theorem explored_of_explores {walk : Walk} (explores : Walk.Explores base resolver entries walk)
    (ended : walk.queue = []) : Explored base resolver entries walk.plan := by
  have left := explores.visiting_eq_nil ended
  obtain ⟨plan, queue, visiting, path⟩ := walk
  cases ended
  cases left
  exact ⟨{ explores.consistent with }, { explores.sound with }, { explores.covered with }⟩

/-- A request is taken by a walk that begins with its preparation. -/
theorem exists_last_take (resolver : Resolver) (unfinalized : plan.isFinalized = false)
    (submission : Submission) :
    ∃ last, Walk.Reaches resolver
        { plan := plan.prepare submission, queue := submission.visits } last ∧
      Walk.Stops resolver last (plan.take resolver submission) := by
  rw [take_eq unfinalized]
  exact (plan.prepare submission).exists_last_expand resolver submission.visits

/-- A request is taken by a walk that explores what it asks for. -/
theorem Explored.exists_last_take (explored : Explored base resolver entries plan)
    (unfinalized : plan.isFinalized = false) (submission : Submission) :
    ∃ last, Walk.Reaches resolver
        { plan := plan.prepare submission, queue := submission.visits } last ∧
      Walk.Explores base resolver (entries ++ submission.requested) last ∧
      Walk.Stops resolver last (plan.take resolver submission) := by
  obtain ⟨last, reaches, stops⟩ := Plan.exists_last_take resolver unfinalized submission
  exact ⟨last, reaches, reaches.explores (explored.prepare submission), stops⟩

/-- The walk of a request that succeeds comes to its end. -/
theorem exists_last_of_take (taken : (plan.take resolver submission).result = .ok ()) :
    ∃ last, Walk.Reaches resolver
        { plan := plan.prepare submission, queue := submission.visits } last ∧
      last.queue = [] ∧ (plan.take resolver submission).plan = last.plan := by
  obtain ⟨last, reaches, stops⟩ :=
    exists_last_take resolver (unfinalized_of_taken taken) submission
  exact ⟨last, reaches, stops.of_ok taken⟩

theorem Explored.take (explored : Explored base resolver entries plan)
    (taken : (plan.take resolver submission).result = .ok ()) :
    Explored base resolver (entries ++ submission.requested)
      (plan.take resolver submission).plan := by
  obtain ⟨last, reaches, ended, same⟩ := exists_last_of_take taken
  rw [same]
  exact explored_of_explores (reaches.explores (explored.prepare submission)) ended

theorem take_keepsRequests (resolver : Resolver) (unfinalized : plan.isFinalized = false)
    (submission : Submission) :
    (plan.prepare submission).KeepsRequests (plan.take resolver submission).plan := by
  obtain ⟨last, reaches, stops⟩ := exists_last_take resolver unfinalized submission
  exact reaches.keepsRequests.trans stops.keepsRequests

theorem take_isFinalized (resolver : Resolver) (unfinalized : plan.isFinalized = false)
    (submission : Submission) :
    (plan.take resolver submission).plan.isFinalized = false := by
  rw [take_keepsRequests resolver unfinalized submission]
  exact (sameFindings_prepare plan submission).isFinalized.trans unfinalized

/-- What each of the requests keeps if it succeeds, all of them keep if they succeed. -/
theorem takeAll_induction {submissions : List Submission} (property : List WorkItem → Plan → Prop)
    (take : ∀ entries plan, ∀ submission ∈ submissions, property entries plan →
      (plan.take resolver submission).result = .ok () →
      property (entries ++ submission.requested) (plan.take resolver submission).plan)
    (holds : property entries plan)
    (taken : (takeAll resolver submissions plan).result = .ok ()) :
    property (entries ++ submissions.flatMap Submission.requested)
      (takeAll resolver submissions plan).plan := by
  induction submissions generalizing plan entries with
  | nil =>
      rw [List.flatMap_nil, List.append_nil]
      exact holds
  | cons submission rest ih =>
      unfold takeAll at taken ⊢
      dsimp only at taken ⊢
      cases outcome : (plan.take resolver submission).result with
      | error error =>
          rw [outcome] at taken
          cases taken
      | ok =>
          rw [outcome] at taken
          rw [List.flatMap_cons, ← List.append_assoc]
          have later := fun entries plan other member =>
            take entries plan other (List.mem_cons_of_mem _ member)
          exact ih later (take entries plan submission List.mem_cons_self holds outcome) taken

/-- A request leaves room behind its own batch, and behind all earlier ones. -/
theorem nextOrdinal_take (unfinalized : plan.isFinalized = false) (resolver : Resolver)
    (submission : Submission) :
    (plan.take resolver submission).plan.nextOrdinal =
      if plan.nextOrdinal < (plan.ordinalFor submission).next then (plan.ordinalFor submission).next
      else plan.nextOrdinal := by
  obtain ⟨items, same⟩ := plan.exists_prepare_eq submission
  rw [take_keepsRequests resolver unfinalized submission]
  show (plan.prepare submission).nextOrdinal = _
  rw [same]
  exact foldl_request_induction (fun other => other.nextOrdinal = _) (fun _ _ _ => id) rfl

end Plan

end TaskPlanner
