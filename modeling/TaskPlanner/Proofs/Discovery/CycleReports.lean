import TaskPlanner.Proofs.Plan.CycleRejection
import TaskPlanner.Proofs.Plan.Operations
import TaskPlanner.Resolver.Rows

/-! What discovery says about a cycle. A request that fails because of a cycle names it in order:
each of the items depends on the next one, and the last one on the first. -/

set_option autoImplicit false

namespace TaskPlanner

namespace Walk

variable {resolver : Resolver} {walk next : Walk}

/-- The plan has taken over what the resolver tells about the items that are being walked. -/
def IsInformed (resolver : Resolver) (walk : Walk) : Prop :=
  ∀ item ∈ walk.visiting, ∃ resolution, resolver.answer item = .ok resolution ∧
    walk.plan.relations item = resolution.relations

theorem Moves.isInformed (moves : Moves resolver walk next) (informed : walk.IsInformed resolver) :
    next.IsInformed resolver := by
  cases moves with
  | drop => exact informed
  | setAside =>
      intro item inside
      rw [Plan.relations_setAside]
      exact informed item inside
  | @leave visit rest =>
      intro item inside
      rw [show (walk.leave visit rest).plan.relations item = _ from Plan.relations_enroll _ _ _]
      exact informed item (List.mem_of_mem_erase inside)
  | @descend visit rest resolution front isOpen accepted outside answered =>
      intro item inside
      rw [show (walk.descend visit resolution).plan.relations item = _ from
        Plan.relations_adopt_inquire _ _ _ _]
      split
      next same => exact ⟨resolution, same ▸ answered, rfl⟩
      next different => exact informed item ((List.mem_cons.mp inside).resolve_left different)

theorem Reaches.isInformed {last : Walk} (reaches : Reaches resolver walk last)
    (informed : walk.IsInformed resolver) : last.IsInformed resolver := by
  induction reaches with
  | refl => exact informed
  | tail _ moves ih => exact moves.isInformed ih

/-- A walk that stops because of a cycle reports one, and knows the relations of its items. -/
theorem Stops.cycle_cases {attempt : Attempt Unit} {report : CycleReport}
    (stops : Stops resolver walk attempt) (disciplined : Disciplined resolver walk)
    (informed : walk.IsInformed resolver) (failed : attempt.result = .error (.cycle report)) :
    ∃ items, report = .path items ∧ resolver.IsCycle items ∧
      ∀ item ∈ items, ∃ resolution, resolver.answer item = .ok resolution ∧
        attempt.plan.relations item = resolution.relations := by
  cases stops with
  | done => cases failed
  | unresolved => cases failed
  | @cycle visit rest resolution items front isOpen accepted outside answered closed =>
      cases failed
      have descends := Moves.descend front isOpen accepted outside answered
      obtain ⟨returns, visiting, stacked⟩ := descends.disciplined disciplined
      obtain ⟨cycle, onPath⟩ := stacked.isCycle (visiting ▸ returns.entered)
        (fun item member => ⟨resolution, answered, (List.mem_filter.mp member).1⟩) closed
      refine ⟨items, rfl, cycle, fun item member => ?_⟩
      apply descends.isInformed informed
      rw [visiting]
      exact onPath member

end Walk

namespace Plan

/-- A cycle that a request reports is a cycle of dependencies in the plan that the request leaves,
and the message names its items in order. -/
theorem reported_cycle (plan : Plan) (resolver : Resolver) (submission : Submission)
    {report : CycleReport}
    (failed : (plan.take resolver submission).result = .error (.cycle report)) :
    ∃ first others, report = .path (first :: others ++ [first]) ∧ (first :: others).Nodup ∧
      (first :: others ++ [first]).IsChain (fun item next =>
        next ∈ ((plan.take resolver submission).plan.relations item).dependencies) ∧
      (∀ item ∈ first :: others, ∃ resolution, resolver.answer item = .ok resolution ∧
        (plan.take resolver submission).plan.relations item = resolution.relations) ∧
      (PlanError.cycle report).message = "Dependency cycle detected: " ++
        String.intercalate " -> " ((first :: others ++ [first]).map (·.displayName)) := by
  have unfinalized : plan.isFinalized = false := by
    apply unfinalized_of_take
    rw [failed]
    exact nofun
  obtain ⟨last, reaches, stops⟩ := exists_last_take resolver unfinalized submission
  have disciplined := reaches.disciplined (disciplined_prepare plan resolver submission)
  have informed := reaches.isInformed nofun
  obtain ⟨_, rfl, ⟨first, others, rfl, distinct, chain⟩, known⟩ :=
    stops.cycle_cases disciplined informed failed
  refine ⟨first, others, rfl, distinct, ?_, ?_, rfl⟩
  · apply chain.imp_of_mem_imp
    intro item next member _ depends
    obtain ⟨resolution, answered, related⟩ := known item member
    obtain ⟨same, told, dependency⟩ := depends
    cases answered.symm.trans told
    exact related ▸ dependency
  · intro item member
    exact known item (List.mem_append_left _ member)

/-- Packing depends on the licences, which an audit follows, and on linking. Linking depends on
compiling, compiling on generating, and generating on linking again. -/
def circularResolver : Resolver :=
  .ofDeclarations [.dependency "pack" "licences", .finalizer "licences" "audit",
    .dependency "pack" "link", .dependency "link" "compile", .softDependency "compile" "generate",
    .dependency "generate" "link"]

/-- A plan of that build which holds the licences and their audit. -/
def licensedPlan : Plan := (({} : Plan).take circularResolver (.tasks ["licences"] none)).plan

/-- The cycle begins where linking comes back to itself, not at the request for packing. -/
theorem reported_cycle_pack :
    (licensedPlan.take circularResolver (.tasks ["audit", "pack"] none)).result =
        .error (.cycle (.path [.task "link", .task "compile", .task "generate", .task "link"])) ∧
      [WorkItem.task "link", .task "compile", .task "generate", .task "link"].IsChain
        fun item next => next ∈ ((licensedPlan.take circularResolver
          (.tasks ["audit", "pack"] none)).plan.relations item).dependencies := by
  have failed : (licensedPlan.take circularResolver (.tasks ["audit", "pack"] none)).result =
      .error (.cycle (.path [.task "link", .task "compile", .task "generate", .task "link"])) := rfl
  obtain ⟨first, others, named, _, chain, _⟩ := reported_cycle _ _ _ failed
  rw [← CycleReport.path.inj named] at chain
  exact ⟨failed, chain⟩

end Plan

end TaskPlanner
