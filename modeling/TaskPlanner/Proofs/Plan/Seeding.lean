import TaskPlanner.Proofs.Plan.Editing

/-! Seeds that refer to nothing. Seeding stops at the first of them, but keeps the seeds in front of
it, so that a plan may index items which it does not hand out. -/

set_option autoImplicit false

namespace TaskPlanner.Plan

variable {plan : Plan} {items : List WorkItem} {seeds : List Seed} {error : PlanError}

/-! ## Schedules of plans that are in order -/

/-- A plan that was put in order hands out items of its index only. -/
def HandsOutIndexed (plan : Plan) : Prop :=
  plan.needsOrdering = false → ∀ node ∈ (plan.schedule?.getD {}).nodes, node.item ∈ plan.index

theorem HandsOutIndexed.take (indexed : plan.HandsOutIndexed) (resolver : Resolver)
    (submission : Submission) : (plan.take resolver submission).plan.HandsOutIndexed := by
  cases finalized : plan.isFinalized with
  | true =>
      rw [take_of_isFinalized finalized]
      exact indexed
  | false =>
      intro settled
      rw [needsOrdering_take finalized] at settled
      cases settled

theorem HandsOutIndexed.nodes_eq_nil (indexed : plan.HandsOutIndexed)
    (settled : plan.needsOrdering = false) (empty : plan.index.items = []) :
    (plan.schedule?.getD {}).nodes = [] := by
  refine List.eq_nil_iff_forall_not_mem.mpr fun node member => ?_
  have listed := indexed settled node member
  rw [ItemSet.mem_def, empty] at listed
  cases listed

/-- Before a plan is filled its schedule is empty, and seeds that fail leave it at that. -/
theorem HandsOutIndexed.seed (indexed : plan.HandsOutIndexed) (seeds : List Seed) :
    (plan.seed seeds).plan.HandsOutIndexed := by
  rcases plan.seed_cases seeds with same | ⟨empty, settled⟩
  · rw [same]
    exact indexed
  · have kept := seed_induction
      (fun plan => plan.needsOrdering = false → (plan.schedule?.getD {}).nodes = [])
      (fun _ => indexed.nodes_eq_nil settled empty) (fun _ _ => id) (fun _ _ _ => id) (fun _ _ => nofun) seeds
    intro still node member
    rw [kept still] at member
    cases member

theorem HandsOutIndexed.determine (indexed : plan.HandsOutIndexed) :
    plan.determine.plan.HandsOutIndexed := by
  have determined := plan.determines
  generalize plan.determine = attempt at determined ⊢
  cases determined with
  | settled settled => exact fun _ => indexed settled
  | failed pending _ =>
      intro settled
      cases pending.symm.trans settled
  | scheduled _ scheduled =>
      exact fun _ node member => (Inventory.keepsTo_schedule scheduled node member).1

theorem HandsOutIndexed.retainFirst (indexed : plan.HandsOutIndexed) (count : Nat) :
    (plan.retainFirst count).plan.HandsOutIndexed := by
  unfold Plan.retainFirst
  split
  · exact indexed
  · dsimp only
    split
    · exact indexed
    · nofun

theorem Reachable.handsOutIndexed (reachable : plan.Reachable) : plan.HandsOutIndexed := by
  induction reachable with
  | new => exact fun _ _ => nofun
  | accept _ _ ih => exact ih
  | proceed _ _ ih => exact ih
  | edit _ _ _ ih => exact ih
  | mention _ _ ih => exact ih
  | onComplete _ _ ih => exact ih
  | submit resolver tasks ordinal? _ ih => exact ih.take resolver (.tasks tasks ordinal?)
  | addEntries resolver items ordinal? _ ih => exact ih.take resolver (.items items ordinal?)
  | seed seeds _ ih => exact ih.seed seeds
  | determine _ ih => exact ih.determine
  | @finalize plan _ ih =>
      have ordered := ih.determine
      unfold Plan.finalize
      dsimp only
      split
      · exact ordered
      · exact ordered
  | retainFirst count _ ih => exact ih.retainFirst count
  | close _ _ _ => exact fun _ _ => nofun

/-! ## Planting -/

/-- The seed refers to the first `count` positions only. -/
def Seed.isWithin (count : Nat) (seed : Seed) : Bool :=
  (seed.dependencies ++ seed.finalizers).all (· < count)

/-- The seeds in front of the first one that refers to nothing. -/
def leadingSeeds (seeds : List Seed) : List Seed := seeds.takeWhile (Seed.isWithin seeds.length)

theorem exists_itemsAt_iff (items : List WorkItem) (positions : List Nat) :
    (∃ found, itemsAt items positions = .ok found) ↔ positions.all (· < items.length) = true := by
  induction positions with
  | nil => simp [itemsAt]
  | cons position rest ih =>
      unfold itemsAt
      cases present : items[position]? with
      | none =>
          have beyond : ¬ position < items.length := by simpa using present
          simp [beyond]
      | some item =>
          have within : position < items.length := (List.getElem?_eq_some_iff.mp present).1
          rw [List.all_cons, decide_eq_true within, Bool.true_and, ← ih]
          cases itemsAt items rest <;> simp [Except.map]

theorem Seed.exists_relations_iff (seed : Seed) (items : List WorkItem) :
    (∃ relations, seed.relations items = .ok relations) ↔ seed.isWithin items.length = true := by
  unfold isWithin relations
  rw [List.all_append, Bool.and_eq_true, ← exists_itemsAt_iff, ← exists_itemsAt_iff]
  cases itemsAt items seed.dependencies <;> cases itemsAt items seed.finalizers <;> simp

theorem plantAll_cons {seed : Seed} {relations : Relations}
    (related : seed.relations items = .ok relations) (rest : List Seed) (plan : Plan) :
    plantAll items (seed :: rest) plan = plantAll items rest (plan.plant seed.item relations) := by
  rw [plantAll, related]

theorem plantAll_cons_of_error {seed : Seed} {fault : ResolutionFault}
    (broken : seed.relations items = .error fault) (rest : List Seed) (plan : Plan) :
    plantAll items (seed :: rest) plan = ⟨.error (.unresolved seed.item fault), plan⟩ := by
  rw [plantAll, broken]

theorem plantAll_frame (items : List WorkItem) (seeds : List Seed) (plan : Plan) :
    (plantAll items seeds plan).plan =
      { plan with toInventory := (plantAll items seeds plan).plan.toInventory } := by
  induction seeds generalizing plan with
  | nil => rfl
  | cons seed rest ih =>
      cases related : seed.relations items with
      | error => rw [plantAll_cons_of_error related]
      | ok relations =>
          rw [plantAll_cons related]
          exact ih (plan.plant seed.item relations)

/-- Planting enters the seeds in front of the first one that refers to nothing, at which it fails. -/
theorem plantAll_spec (items : List WorkItem) (seeds : List Seed) (plan : Plan) :
    let leading := seeds.takeWhile (Seed.isWithin items.length)
    (plantAll items seeds plan).plan = (plantAll items leading plan).plan ∧
      (plantAll items seeds plan).plan.index = plan.index.insertAll (leading.map (·.item)) ∧
      ∀ {error}, (plantAll items seeds plan).result = .error error →
        ∃ broken rest fault, error = .unresolved broken.item fault ∧
          seeds = leading ++ broken :: rest := by
  induction seeds generalizing plan with
  | nil => exact ⟨rfl, rfl, nofun⟩
  | cons seed rest ih =>
      have within := seed.exists_relations_iff items
      cases related : seed.relations items with
      | error fault =>
          have beyond : seed.isWithin items.length = false := by simpa [related] using within
          rw [List.takeWhile_cons_of_neg (by simp [beyond]), plantAll_cons_of_error related]
          exact ⟨rfl, rfl, fun failed => ⟨seed, rest, fault, (Except.error.inj failed).symm, rfl⟩⟩
      | ok relations =>
          have inside : seed.isWithin items.length = true := by simpa [related] using within
          rw [List.takeWhile_cons_of_pos inside]
          dsimp only
          rw [plantAll_cons related, plantAll_cons related]
          obtain ⟨planted, index, fails⟩ := ih (plan.plant seed.item relations)
          refine ⟨planted, index, fun failed => ?_⟩
          obtain ⟨broken, others, fault, unresolved, split⟩ := fails failed
          exact ⟨broken, others, fault, unresolved, congrArg (seed :: ·) split⟩

/-! ## Seeds that fail -/

/-- Seeding is refused, or it enters the leading seeds of a list into an empty plan. -/
theorem seed_error_cases (failed : (plan.seed seeds).result = .error error) :
    (error = .alreadyFinalized ∨ error = .alreadyScheduled) ∧ (plan.seed seeds).plan = plan ∨
      plan.index.items = [] ∧ plan.needsOrdering = false ∧
        (∃ broken rest fault, error = .unresolved broken.item fault ∧
          seeds = leadingSeeds seeds ++ broken :: rest) ∧
        (plan.seed seeds).plan = (plantAll (seeds.map (·.item)) (leadingSeeds seeds)
          (plan.mention (seeds.map (·.item)))).plan ∧
        (plan.seed seeds).plan.index = plan.index.insertAll ((leadingSeeds seeds).map (·.item)) := by
  have spec := plantAll_spec (seeds.map (·.item)) seeds (plan.mention (seeds.map (·.item)))
  rw [List.length_map] at spec
  obtain ⟨planted, index, fails⟩ := spec
  unfold seed at failed ⊢
  split at failed
  next finalized =>
    cases failed
    exact .inl ⟨.inl rfl, by rw [if_pos finalized]⟩
  next unfinalized =>
    rw [if_neg unfinalized]
    split at failed
    next filled =>
      cases failed
      exact .inl ⟨.inr rfl, by rw [if_pos filled]⟩
    next fresh =>
      right
      rw [if_neg fresh]
      simp only [Bool.or_eq_true, Bool.not_eq_true', not_or] at fresh
      obtain ⟨⟨settled, _⟩, empty⟩ := fresh
      dsimp only at failed ⊢
      split at failed
      next cause broken =>
        cases failed
        exact ⟨List.isEmpty_iff.mp (Bool.not_eq_false _ |>.mp empty),
          Bool.eq_false_iff.mpr settled, fails broken, planted, index⟩
      next => cases failed

theorem finalize_of_settled (settled : plan.needsOrdering = false) :
    plan.finalize.result = .ok (plan.schedule?.getD {}) := by
  unfold finalize determine
  rw [settled]
  rfl

/-- Seeding that fails leaves the plan as it was, except for mentioned items, if it is refused or
fails at the first seed. Otherwise the plan indexes the seeds in front of the failure, and hands out
none of them. -/
theorem failed_seed (reachable : plan.Reachable) (failed : (plan.seed seeds).result = .error error) :
    (error = .alreadyFinalized ∨ error = .alreadyScheduled) ∧ (plan.seed seeds).plan = plan ∨
      (∃ broken rest fault, error = .unresolved broken.item fault ∧
        seeds = leadingSeeds seeds ++ broken :: rest) ∧
      ((∃ items, (plan.seed seeds).plan = plan.mention items) ↔ leadingSeeds seeds = []) ∧
      (∀ item, item ∈ (plan.seed seeds).plan.index ↔
        item ∈ (leadingSeeds seeds).map (·.item)) ∧
      ∃ schedule, (plan.seed seeds).plan.finalize.result = .ok schedule ∧ schedule.nodes = [] := by
  rcases seed_error_cases failed with refused | ⟨empty, settled, broken, planted, index⟩
  · exact .inl refused
  · right
    have frame := plantAll_frame (seeds.map (·.item)) (leadingSeeds seeds)
      (plan.mention (seeds.map (·.item)))
    rw [← planted] at frame
    have indexed : ∀ item, item ∈ (plan.seed seeds).plan.index ↔
        item ∈ (leadingSeeds seeds).map (·.item) := by
      intro item
      rw [index, ItemSet.mem_insertAll, ItemSet.mem_def, empty]
      simp
    have unordered : (plan.seed seeds).plan.needsOrdering = false := by
      rw [frame]
      exact settled
    refine ⟨broken, ⟨fun unchanged => ?_, fun none => ⟨seeds.map (·.item), ?_⟩⟩, indexed, _,
      finalize_of_settled unordered, ?_⟩
    · obtain ⟨items, mentioned⟩ := unchanged
      refine List.eq_nil_iff_forall_not_mem.mpr fun seed member => ?_
      have listed := (indexed seed.item).mpr (List.mem_map_of_mem member)
      rw [mentioned] at listed
      change seed.item ∈ plan.index.items at listed
      rw [empty] at listed
      cases listed
    · rw [planted, none]
      rfl
    · rw [frame]
      exact reachable.handsOutIndexed.nodes_eq_nil settled empty

/-- Linting is seeded before compiling, which refers to nothing. -/
def brokenSeeds : List Seed :=
  [{ item := .task "lint" }, { item := .task "compile", dependencies := [7] }]

/-- Linting is in the index, but not in the schedule that the plan hands out. -/
theorem failed_seed_lint :
    (({} : Plan).seed brokenSeeds).result =
        .error (.unresolved (.task "compile") (.missingPosition 7)) ∧
      .task "lint" ∈ (({} : Plan).seed brokenSeeds).plan.index ∧
      ∃ schedule, (({} : Plan).seed brokenSeeds).plan.finalize.result = .ok schedule ∧
        schedule.nodes = [] := by
  have failed : (({} : Plan).seed brokenSeeds).result =
      .error (.unresolved (.task "compile") (.missingPosition 7)) := rfl
  rcases failed_seed (.new _) failed with ⟨refused, _⟩ | ⟨_, _, indexed, schedule⟩
  · simp at refused
  · exact ⟨failed, (indexed _).mpr (by decide), schedule⟩

/-- Seeding is not atomic. -/
theorem not_atomic_brokenSeeds :
    ({} : Plan).Reachable ∧ (({} : Plan).seed brokenSeeds).result =
        .error (.unresolved (.task "compile") (.missingPosition 7)) ∧
      (¬ ∃ items, (({} : Plan).seed brokenSeeds).plan = ({} : Plan).mention items) ∧
      (({} : Plan).seed brokenSeeds).plan.index.items = [.task "lint"] ∧
      (({} : Plan).seed brokenSeeds).plan.entries.items = [.task "lint"] ∧
      (({} : Plan).seed brokenSeeds).plan.needsOrdering = false ∧
      (({} : Plan).seed brokenSeeds).plan.finalize.result = .ok {} := by
  refine ⟨.new _, rfl, ?_, rfl, rfl, rfl, rfl⟩
  intro ⟨items, unchanged⟩
  cases congrArg (·.index.items) unchanged

end TaskPlanner.Plan
