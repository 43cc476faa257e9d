import TaskPlanner.Proofs.Plan.Submissions

/-! Discovery is reachability. Requests that succeed leave in the index exactly what they need,
and the resolver is asked about these items once each. -/

set_option autoImplicit false

namespace TaskPlanner.Plan

variable {plan base : Plan} {resolver : Resolver} {entries : List WorkItem}
  {submissions : List Submission}

/-- Requests that succeed have found all that they asked for. -/
theorem Explored.takeAll (explored : Explored base resolver entries plan)
    (taken : (Plan.takeAll resolver submissions plan).result = .ok ()) :
    Explored base resolver (entries ++ submissions.flatMap Submission.requested)
      (Plan.takeAll resolver submissions plan).plan :=
  takeAll_induction (Explored base resolver) (fun _ _ _ _ known succeeded => known.take succeeded)
    explored taken

/-- The filter decides about tasks of the build at hand only. -/
theorem acceptsItem_eq_false_iff {item : WorkItem} :
    plan.acceptsItem item = false ↔ ∃ name, item = .task name ∧ plan.accepts name = false := by
  cases item <;> simp [acceptsItem, WorkItem.taskName?]

/-- Discovery is exactly reachability. After requests that succeed, the index holds what they
need, the items set aside are those that are wanted but rejected by the filter, and the resolver
was asked about the items of the index, each once, and about nothing else. -/
theorem takeAll_exact (fresh : plan.IsFresh)
    (taken : (takeAll resolver submissions plan).result = .ok ()) :
    (∀ item, item ∈ (takeAll resolver submissions plan).plan.index ↔
      plan.Needs resolver (submissions.flatMap Submission.requested) item) ∧
    (∀ item, item ∈ (takeAll resolver submissions plan).plan.filtered ↔
      (∃ name, item = .task name ∧ plan.accepts name = false) ∧
      (plan.node item).cannotRun = false ∧
      plan.Wants resolver (submissions.flatMap Submission.requested) item) ∧
    (takeAll resolver submissions plan).plan.index.items.Nodup ∧
    ∃ calls, (takeAll resolver submissions plan).plan.inquiries.asked =
        plan.inquiries.asked ++ calls ∧
      calls.Perm (takeAll resolver submissions plan).plan.index.items := by
  have explored := (fresh.explored resolver).takeAll taken
  rw [List.nil_append] at explored
  refine ⟨fun item => explored.mem_index_iff rfl, fun item => ?_, explored.consistent.distinct,
    explored.consistent.asked⟩
  rw [← acceptsItem_eq_false_iff]
  exact explored.mem_filtered_iff rfl

/-! ## An example -/

theorem isFresh_new (name : String) (accepts : String → Bool) : IsFresh { name, accepts } :=
  ⟨rfl, rfl, fun _ => ⟨rfl, rfl, rfl, rfl, rfl⟩⟩

/-- A build in which testing depends on compiling and on the documentation, and compiling is
followed by a cleanup. -/
def exampleAnswer (item : WorkItem) : Resolution :=
  if item = .task "test" then
    { successors := [{ item := .task "compile" }, { item := .task "document" }] }
  else if item = .task "compile" then { finalizers := [.task "cleanup"] }
  else {}

/-- The resolver of that build. -/
def exampleResolver : Resolver where
  answer item := .ok (exampleAnswer item)
  mentionable := [.task "compile", .task "document", .task "cleanup"]
  mentioned_subset := by
    intro item resolution answered other mentioned
    cases answered
    unfold exampleAnswer at mentioned
    split at mentioned
    · exact List.mem_append_left [.task "cleanup"] mentioned
    · split at mentioned
      · exact List.mem_append_right [.task "compile", .task "document"] mentioned
      · cases mentioned

/-- A plan of that build without its documentation. -/
def examplePlan : Plan := { accepts := fun name => decide (name ≠ "document") }

/-- A request for the tests, and then one for compiling in an earlier batch. -/
def exampleSubmissions : List Submission :=
  [.tasks ["test"] (some ⟨3, by decide⟩), .items [.task "compile"] (some ⟨1, by decide⟩)]

theorem takeAll_exact_example :
    (takeAll exampleResolver exampleSubmissions examplePlan).result = .ok () ∧
      (takeAll exampleResolver exampleSubmissions examplePlan).plan.index.items =
        [.task "compile", .task "cleanup", .task "test"] ∧
      examplePlan.Needs exampleResolver [.task "test", .task "compile"] (.task "cleanup") := by
  have taken : (takeAll exampleResolver exampleSubmissions examplePlan).result = .ok () := rfl
  have indexed : (takeAll exampleResolver exampleSubmissions examplePlan).plan.index.items =
      [.task "compile", .task "cleanup", .task "test"] := rfl
  have fresh : examplePlan.IsFresh := isFresh_new _ _
  have found := takeAll_exact fresh taken
  refine ⟨taken, indexed, (found.1 (.task "cleanup")).mp ?_⟩
  rw [ItemSet.mem_def, indexed]
  exact List.mem_cons_of_mem _ List.mem_cons_self

end TaskPlanner.Plan
