import TaskPlanner.Plan.Submission
import TaskPlanner.Proofs.Plan.Batching
import TaskPlanner.Proofs.Schedule.WellFormed

/-! Whatever is done to a plan, no item is indexed twice, and the schedule that it hands out is well
formed. -/

set_option autoImplicit false

namespace TaskPlanner.Plan

/-- The plans that operations make of a new plan. An operation that is refused or fails also
leaves a plan. -/
inductive Reachable : Plan → Prop where
  | new (name : String) : Reachable { name }
  | accept {plan : Plan} (accepts : String → Bool) :
      Reachable plan → Reachable { plan with accepts }
  | proceed {plan : Plan} (continueOnFailure : Bool) :
      Reachable plan → Reachable { plan with continueOnFailure }
  | edit {plan : Plan} (item : WorkItem) (change : Node → Node) :
      Reachable plan → Reachable (plan.updateNode item change)
  | mention {plan : Plan} (items : List WorkItem) : Reachable plan → Reachable (plan.mention items)
  | onComplete {plan : Plan} (handler : String) :
      Reachable plan → Reachable (plan.onComplete handler)
  | submit {plan : Plan} (resolver : Resolver) (tasks : List String) (ordinal? : Option Ordinal) :
      Reachable plan → Reachable (plan.submit resolver tasks ordinal?).plan
  | addEntries {plan : Plan} (resolver : Resolver) (items : List WorkItem)
      (ordinal? : Option Ordinal) :
      Reachable plan → Reachable (plan.addEntries resolver items ordinal?).plan
  | seed {plan : Plan} (seeds : List Seed) : Reachable plan → Reachable (plan.seed seeds).plan
  | determine {plan : Plan} : Reachable plan → Reachable plan.determine.plan
  | finalize {plan : Plan} : Reachable plan → Reachable plan.finalize.plan
  | retainFirst {plan : Plan} (count : Nat) :
      Reachable plan → Reachable (plan.retainFirst count).plan
  | close {plan : Plan} (executed : List WorkItem) :
      Reachable plan → Reachable (plan.close executed)

variable {plan before after : Plan}

/-! ## Requests and seeds -/

/-- A property that the parts of requests and of seeding keep. -/
structure IsKept (property : Plan → Prop) : Prop where
  mention : ∀ plan items, property plan → property (plan.mention items)
  openBatch : ∀ plan ordinal, property plan → property (plan.openBatch ordinal)
  request : ∀ plan ordinal item, property plan → property (plan.request ordinal item)
  expand : ∀ resolver plan queue, property plan → property (plan.expand resolver queue).plan
  plant : ∀ plan item relations, property plan → property (plan.plant item relations)
  precompute : ∀ plan, property plan →
    property { plan with isPrecomputed := true, needsOrdering := true }

theorem IsKept.take {property : Plan → Prop} (kept : IsKept property) (holds : property plan)
    (resolver : Resolver) (submission : Submission) :
    property (plan.take resolver submission).plan := by
  cases finalized : plan.isFinalized with
  | true =>
      rw [take_of_isFinalized finalized]
      exact holds
  | false =>
      rw [take_eq finalized]
      exact kept.expand _ _ _ (prepare_induction property holds kept.mention kept.openBatch
        fun other item _ => kept.request other _ item)

/-- What the parts of seeding keep, seeding keeps. -/
theorem seed_induction (property : Plan → Prop) (holds : property plan)
    (mention : ∀ plan items, property plan → property (plan.mention items))
    (plant : ∀ plan item relations, property plan → property (plan.plant item relations))
    (precompute : ∀ plan, property plan →
      property { plan with isPrecomputed := true, needsOrdering := true }) (seeds : List Seed) :
    property (plan.seed seeds).plan := by
  have planted : ∀ (items : List WorkItem) (seeds : List Seed) (plan : Plan), property plan →
      property (Plan.plantAll items seeds plan).plan := by
    intro items seeds
    induction seeds with
    | nil => exact fun _ => id
    | cons seed rest ih =>
        intro plan holds
        unfold Plan.plantAll
        split
        · exact holds
        · exact ih _ (plant plan seed.item _ holds)
  have finished := planted (seeds.map (·.item)) seeds _ (mention plan (seeds.map (·.item)) holds)
  unfold Plan.seed
  split
  · exact holds
  · split
    · exact holds
    · dsimp only
      split
      · exact finished
      · exact precompute _ finished

theorem IsKept.seed {property : Plan → Prop} (kept : IsKept property) (holds : property plan)
    (seeds : List Seed) : property (plan.seed seeds).plan :=
  seed_induction property holds kept.mention kept.plant kept.precompute seeds

/-! ## Putting a plan in order -/

/-- The plan was in order already, or it cannot be put in order, or it is. -/
inductive Determines (plan : Plan) : Attempt Schedule → Prop where
  | settled : plan.needsOrdering = false →
      Determines plan ⟨.ok (plan.schedule?.getD {}),
        { plan with schedule? := some (plan.schedule?.getD {}) }⟩
  | failed {report : CycleReport} : plan.needsOrdering = true →
      plan.toInventory.withMarkers.schedule = .error report →
      Determines plan ⟨.error (.cycle report),
        { plan with toInventory := plan.toInventory.withMarkers }⟩
  | scheduled {schedule : Schedule} : plan.needsOrdering = true →
      plan.toInventory.withMarkers.schedule = .ok schedule →
      Determines plan ⟨.ok schedule,
        { plan with
          toInventory := plan.toInventory.withMarkers
          schedule? := some schedule
          needsOrdering := false }⟩

theorem determines (plan : Plan) : plan.Determines plan.determine := by
  unfold determine
  split
  next pending =>
    dsimp only
    split
    next failed => exact .failed pending failed
    next scheduled => exact .scheduled pending scheduled
  next settled => exact .settled (Bool.eq_false_iff.mpr settled)

/-- Putting a plan in order adds markers to what it has found out, or nothing. -/
theorem toInventory_determine (plan : Plan) :
    plan.determine.plan.toInventory = plan.toInventory ∨
      plan.determine.plan.toInventory = plan.toInventory.withMarkers := by
  have determined := plan.determines
  generalize plan.determine = attempt at determined ⊢
  cases determined with
  | settled _ => exact .inl rfl
  | failed _ _ => exact .inr rfl
  | scheduled _ _ => exact .inr rfl

/-- What the addition of a marker keeps, putting a plan in order keeps. -/
theorem determine_induction (property : Inventory → Prop)
    (addMarker : ∀ inventory ordinal, property inventory → property (inventory.addMarker ordinal))
    (holds : property plan.toInventory) : property plan.determine.plan.toInventory := by
  rcases plan.toInventory_determine with same | marked
  · rw [same]
    exact holds
  · rw [marked]
    exact Inventory.withMarkers_induction property addMarker holds

/-! ## The index -/

theorem isKept_distinct : IsKept fun plan => plan.index.items.Nodup where
  mention _ _ := id
  openBatch _ _ := id
  request _ _ _ := id
  expand resolver plan queue distinct := by
    obtain ⟨last, reaches, stops⟩ := plan.exists_last_expand resolver queue
    rw [stops.index_eq]
    exact reaches.distinct distinct
  plant _ _ _ distinct := ItemSet.nodup_insert distinct _
  precompute _ := id

theorem distinct_determine (distinct : plan.index.items.Nodup) :
    plan.determine.plan.index.items.Nodup :=
  determine_induction (·.index.items.Nodup)
    (fun _ _ distinct => ItemSet.nodup_insert distinct _) distinct

theorem distinct_finalize (distinct : plan.index.items.Nodup) :
    plan.finalize.plan.index.items.Nodup := by
  have determined := distinct_determine distinct
  unfold finalize
  dsimp only
  split
  · exact determined
  · exact determined

theorem distinct_retainFirst (distinct : plan.index.items.Nodup) (count : Nat) :
    (plan.retainFirst count).plan.index.items.Nodup := by
  unfold retainFirst
  split
  · exact distinct
  · dsimp only
    split
    · exact distinct
    · exact distinct.sublist (List.take_sublist count _)

/-- Whatever was done to a plan, no item is indexed twice. -/
theorem Reachable.distinct (reachable : plan.Reachable) : plan.index.items.Nodup := by
  induction reachable with
  | new => exact List.nodup_nil
  | accept _ _ ih => exact ih
  | proceed _ _ ih => exact ih
  | edit _ _ _ ih => exact ih
  | mention _ _ ih => exact ih
  | onComplete _ _ ih => exact ih
  | submit resolver tasks ordinal? _ ih =>
      exact isKept_distinct.take ih resolver (.tasks tasks ordinal?)
  | addEntries resolver items ordinal? _ ih =>
      exact isKept_distinct.take ih resolver (.items items ordinal?)
  | seed seeds _ ih => exact isKept_distinct.seed ih seeds
  | determine _ ih => exact distinct_determine ih
  | finalize _ ih => exact distinct_finalize ih
  | retainFirst count _ ih => exact distinct_retainFirst ih count
  | close _ _ _ => exact List.nodup_nil

/-! ## The schedule -/

/-- The schedule that was computed last, if any, is that of an inventory. -/
def KeepsOrder (plan : Plan) : Prop :=
  ∀ schedule, plan.schedule? = some schedule → schedule.IsOrdered

theorem KeepsOrder.of_eq (keeps : before.KeepsOrder) (same : after.schedule? = before.schedule?) :
    after.KeepsOrder :=
  fun schedule present => keeps schedule (same ▸ present)

theorem KeepsRequests.schedule?_eq (frame : before.KeepsRequests after) :
    after.schedule? = before.schedule? := by
  rw [frame]

theorem schedule?_take (plan : Plan) (resolver : Resolver) (submission : Submission) :
    (plan.take resolver submission).plan.schedule? = plan.schedule? := by
  cases shut : plan.isFinalized with
  | true => rw [take_of_isFinalized shut]
  | false =>
      rw [(take_keepsRequests resolver shut submission).schedule?_eq]
      exact prepare_induction (fun other => other.schedule? = plan.schedule?) rfl
        (fun _ _ => id) (fun _ _ => id) fun _ _ _ => id

theorem isKept_keepsOrder : IsKept KeepsOrder where
  mention _ _ keeps := keeps.of_eq rfl
  openBatch _ _ keeps := keeps.of_eq rfl
  request _ _ _ keeps := keeps.of_eq rfl
  expand resolver plan queue keeps := by
    obtain ⟨last, reaches, stops⟩ := plan.exists_last_expand resolver queue
    exact keeps.of_eq (reaches.keepsRequests.trans stops.keepsRequests).schedule?_eq
  plant _ _ _ keeps := keeps.of_eq rfl
  precompute _ keeps := keeps.of_eq rfl

theorem KeepsOrder.determine (keeps : plan.KeepsOrder) :
    plan.determine.plan.KeepsOrder ∧
      ∀ schedule, plan.determine.result = .ok schedule → schedule.IsOrdered := by
  have determined := plan.determines
  generalize plan.determine = attempt at determined ⊢
  cases determined with
  | settled _ =>
      have ordered : (plan.schedule?.getD {}).IsOrdered := by
        cases known : plan.schedule? with
        | none => exact .inl rfl
        | some schedule => exact keeps schedule known
      refine ⟨fun other present => ?_, fun other accepted => ?_⟩
      · cases present
        exact ordered
      · cases accepted
        exact ordered
  | failed _ _ => exact ⟨keeps.of_eq rfl, by simp⟩
  | scheduled _ scheduled =>
      refine ⟨fun other present => ?_, fun other accepted => ?_⟩
      · cases present
        exact .inr ⟨_, scheduled⟩
      · cases accepted
        exact .inr ⟨_, scheduled⟩

theorem batches_determine (plan : Plan) : plan.determine.plan.batches = plan.batches :=
  determine_induction (·.batches = plan.batches) (fun _ _ => id) rfl

theorem finalize_cases (plan : Plan) :
    plan.finalize.result = plan.determine.result ∧
      plan.finalize.plan.schedule? = plan.determine.plan.schedule? ∧
      plan.finalize.plan.toInventory = plan.determine.plan.toInventory := by
  unfold finalize
  dsimp only
  split
  next error failed => exact ⟨failed.symm, rfl, rfl⟩
  next schedule scheduled => exact ⟨scheduled.symm, rfl, rfl⟩

theorem Reachable.keepsOrder (reachable : plan.Reachable) : plan.KeepsOrder := by
  induction reachable with
  | new => simp [KeepsOrder]
  | accept _ _ ih => exact ih.of_eq rfl
  | proceed _ _ ih => exact ih.of_eq rfl
  | edit _ _ _ ih => exact ih.of_eq rfl
  | mention _ _ ih => exact ih.of_eq rfl
  | onComplete _ _ ih => exact ih.of_eq rfl
  | submit resolver tasks ordinal? _ ih =>
      exact isKept_keepsOrder.take ih resolver (.tasks tasks ordinal?)
  | addEntries resolver items ordinal? _ ih =>
      exact isKept_keepsOrder.take ih resolver (.items items ordinal?)
  | seed seeds _ ih => exact isKept_keepsOrder.seed ih seeds
  | determine _ ih => exact ih.determine.1
  | finalize _ ih => exact ih.determine.1.of_eq (finalize_cases _).2.1
  | retainFirst _ _ ih =>
      refine ih.of_eq ?_
      unfold Plan.retainFirst
      split
      · rfl
      · dsimp only
        split <;> rfl
  | close _ _ => simp [KeepsOrder, Plan.close]

theorem Reachable.isOrdered_of_finalize (reachable : plan.Reachable) {schedule : Schedule}
    (finalized : plan.finalize.result = .ok schedule) : schedule.IsOrdered :=
  reachable.keepsOrder.determine.2 schedule ((finalize_cases plan).1 ▸ finalized)

/-- What a plan hands out for execution is well formed. -/
theorem Reachable.wellFormed_of_finalize (reachable : plan.Reachable) {schedule : Schedule}
    (finalized : plan.finalize.result = .ok schedule) : schedule.WellFormed :=
  (reachable.isOrdered_of_finalize finalized).wellFormed

end TaskPlanner.Plan
