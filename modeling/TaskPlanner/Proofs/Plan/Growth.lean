import TaskPlanner.Proofs.Plan.Submissions
import TaskPlanner.Resolver.Rows

/-! A request only adds to a plan, whether it succeeds or fails. -/

set_option autoImplicit false

namespace TaskPlanner.Plan

theorem growsInto_prepare (plan : Plan) (submission : Submission) :
    plan.GrowsInto (plan.prepare submission) := by
  apply prepare_induction plan.GrowsInto (.refl plan)
  · intro other items grown
    refine grown.trans ⟨List.prefix_refl _, List.prefix_refl _, fun item => ?_⟩
    rw [show (other.mention items).catalog.node item = _ from other.node_mention items item]
    exact .refl _
  · intro other ordinal grown
    exact grown.trans ⟨List.prefix_refl _, List.prefix_refl _, .refl _⟩
  · intro other item _ grown
    exact grown.trans ⟨List.prefix_refl _, List.prefix_refl _,
      Catalog.growsInto_updateAll (fun node => node.growsInto_join _) [item]⟩

theorem growsInto_take (plan : Plan) (resolver : Resolver) (submission : Submission) :
    plan.GrowsInto (plan.take resolver submission).plan := by
  cases finalized : plan.isFinalized with
  | true =>
      rw [take_of_isFinalized finalized]
      exact .refl plan
  | false =>
      obtain ⟨last, reaches, stops⟩ := exists_last_take resolver finalized submission
      exact ((plan.growsInto_prepare submission).trans reaches.growsInto).trans stops.growsInto

/-- A request only adds to a plan, whether it succeeds or fails. -/
theorem take_adds (plan : Plan) (resolver : Resolver) (submission : Submission) :
    plan.index.items <+: (plan.take resolver submission).plan.index.items ∧
      plan.filtered.items <+: (plan.take resolver submission).plan.filtered.items ∧
      (∀ item, (plan.node item).processed = true →
        (plan.take resolver submission).plan.relations item = plan.relations item ∧
        ((plan.take resolver submission).plan.node item).required = (plan.node item).required ∧
        ((plan.take resolver submission).plan.node item).filtered = (plan.node item).filtered ∧
        ((plan.take resolver submission).plan.node item).processed = true) ∧
      ∀ item,
        ((plan.take resolver submission).plan.node item).group = (plan.node item).group ∨
          ∃ ordinal,
            ((plan.take resolver submission).plan.node item).group = some ordinal ∧
            ∀ present, (plan.node item).group = some present → ordinal < present := by
  obtain ⟨index, filtered, catalog⟩ := plan.growsInto_take resolver submission
  exact ⟨index, filtered, fun item => (catalog item).keeps, fun item => (catalog item).group.cases⟩

/-- Packing needs what was compiled and linted, and a signature, which cannot be had. -/
def signingResolver : Resolver :=
  .ofDeclarations [.dependency "pack" "lint", .dependency "pack" "compile",
    .dependency "pack" "sign", .lock "compile" "cache", .finalizer "compile" "sweep",
    .failing "sign"]

/-- A plan that compiles in a late batch, and left linting out. By now its filter accepts
everything. -/
def compiledPlan : Plan :=
  { (({ accepts := (· != "lint") } : Plan).take signingResolver
      (.tasks ["compile", "lint"] (some (.ofPosition 3)))).plan with accepts := fun _ => true }

/-- An earlier batch needs the compiled files, but cannot be had. They move to that batch, and
nothing else is different. -/
theorem take_adds_pack :
    let attempt := compiledPlan.take signingResolver (.tasks ["pack"] (some (.ofPosition 1)))
    attempt.result = .error (.unresolved (.task "sign") (.failure "scripted failure for sign")) ∧
      (compiledPlan.node (.task "compile")).processed = true ∧
      (compiledPlan.node (.task "compile")).group = some (.ofPosition 3) ∧
      (attempt.plan.node (.task "compile")).group = some (.ofPosition 1) ∧
      attempt.plan.relations (.task "compile") = compiledPlan.relations (.task "compile") ∧
      (attempt.plan.node (.task "lint")).filtered = true ∧
      compiledPlan.index.items <+: attempt.plan.index.items := by
  obtain ⟨index, _, keeps, _⟩ :=
    compiledPlan.take_adds signingResolver (.tasks ["pack"] (some (.ofPosition 1)))
  exact ⟨rfl, rfl, rfl, rfl, (keeps (.task "compile") rfl).1,
    (keeps (.task "lint") rfl).2.2.1, index⟩

end TaskPlanner.Plan
