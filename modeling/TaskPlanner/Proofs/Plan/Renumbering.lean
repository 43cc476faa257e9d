import TaskPlanner.Proofs.Discovery.Reachability
import TaskPlanner.Proofs.Plan.Arrangement
import TaskPlanner.Proofs.Plan.Operations
import TaskPlanner.Proofs.Schedule.Renumbering

/-! The order in which a request names its items. New items are numbered in that order, and a
request that names its items in another order leads to a plan with other numbers. Nothing else
differs: no step of a discovery and no step of the ordering looks at a number. -/

set_option autoImplicit false

namespace TaskPlanner

/-- The requests are for the same items and for the same batch. They may name the items in
different orders, and more than once. -/
inductive Submission.Reorders : Submission → Submission → Prop where
  | tasks {names others : List String} {ordinal? : Option Ordinal} :
      (∀ name, name ∈ names ↔ name ∈ others) →
      Reorders (.tasks names ordinal?) (.tasks others ordinal?)
  | items {entries others : List WorkItem} {ordinal? : Option Ordinal} :
      (∀ item, item ∈ entries ↔ item ∈ others) →
      Reorders (.items entries ordinal?) (.items others ordinal?)

theorem Submission.Reorders.mem_requested {left right : Submission} (reorders : left.Reorders right)
    (item : WorkItem) : item ∈ left.requested ↔ item ∈ right.requested := by
  cases reorders with
  | tasks same => simp only [requested, List.mem_map, same]
  | items same => exact same item

namespace Plan

/-- The plans differ in nothing but the numbers of items. -/
inductive Renumbers (plan : Plan) : Plan → Prop where
  | of {catalog : Catalog} :
      plan.catalog.Renumbers catalog → Renumbers plan { plan with catalog }

end Plan

/-- The attempts have the same result, and leave plans that differ in nothing but the numbers of
items. -/
inductive Attempt.Renumbers {α : Type} (attempt : Attempt α) : Attempt α → Prop where
  | of {plan : Plan} : attempt.plan.Renumbers plan → Renumbers attempt { attempt with plan }

theorem Attempt.Renumbers.result_eq {α : Type} {left right : Attempt α}
    (same : left.Renumbers right) : right.result = left.result := by
  cases same
  rfl

namespace Plan

variable {left right : Plan} {submission other : Submission}

theorem Renumbers.refl (plan : Plan) : plan.Renumbers plan := .of (.refl plan.catalog)

/-- Nothing but the catalog differs. -/
theorem Renumbers.eq_of_catalog (same : left.Renumbers right) :
    right = { left with catalog := right.catalog } := by
  cases same
  rfl

theorem Renumbers.toInventory (same : left.Renumbers right) :
    left.toInventory.Renumbers right.toInventory := by
  cases same with
  | of catalogs => exact .of catalogs

theorem Renumbers.catalog (same : left.Renumbers right) :
    left.catalog.Renumbers right.catalog := by
  cases same with
  | of catalogs => exact catalogs

/-! ## Changes of a plan -/

theorem Renumbers.setAside (same : left.Renumbers right) (item : WorkItem) :
    (left.setAside item).Renumbers (right.setAside item) := by
  cases same with
  | of catalogs => exact .of (catalogs.update item _)

theorem Renumbers.inquire (same : left.Renumbers right) (item : WorkItem) :
    (left.inquire item).Renumbers (right.inquire item) := by
  cases same with
  | of catalogs => exact .of (catalogs.update item _)

theorem Renumbers.adopt (same : left.Renumbers right) (item : WorkItem) (resolution : Resolution) :
    (left.adopt item resolution).Renumbers (right.adopt item resolution) := by
  cases same with
  | @of catalog catalogs =>
      have related := (catalogs.record resolution).update item fun node =>
        { node with relations := resolution.relations }
      unfold Plan.adopt
      dsimp only
      rw [related.node]
      exact .of (related.updateAll _ _)

theorem Renumbers.enroll (same : left.Renumbers right) (item : WorkItem) :
    (left.enroll item).Renumbers (right.enroll item) := by
  cases same with
  | of catalogs =>
      have processed := catalogs.update item fun node => { node with processed := true }
      unfold Plan.enroll
      dsimp only
      rw [processed.node]
      exact .of processed

theorem Renumbers.request (same : left.Renumbers right) (ordinal : Ordinal) (item : WorkItem) :
    (left.request ordinal item).Renumbers (right.request ordinal item) := by
  cases same with
  | of catalogs => exact .of (catalogs.update item _)

theorem Renumbers.openBatch (same : left.Renumbers right) (ordinal : Ordinal) :
    (left.openBatch ordinal).Renumbers (right.openBatch ordinal) := by
  cases same with
  | of catalogs => exact .of catalogs

theorem Renumbers.foldl_request (same : left.Renumbers right) (ordinal : Ordinal)
    (items : List WorkItem) :
    (items.foldl (Plan.request ordinal) left).Renumbers
      (items.foldl (Plan.request ordinal) right) := by
  induction items generalizing left right with
  | nil => exact same
  | cons item rest ih => exact ih (same.request ordinal item)

theorem Renumbers.requestAll (same : left.Renumbers right) {items others : List WorkItem}
    (members : ∀ item, item ∈ items ↔ item ∈ others) (ordinal? : Option Ordinal) :
    (left.requestAll items ordinal?).Renumbers (right.requestAll others ordinal?) := by
  have next : right.nextOrdinal = left.nextOrdinal := by
    cases same
    rfl
  unfold Plan.requestAll
  rw [WorkItem.arranged_eq_iff.mpr members, next]
  exact (same.openBatch _).foldl_request _ _

/-- Requests for the same items are prepared alike, but for the numbers. -/
theorem Renumbers.prepare (same : left.Renumbers right) (reorders : submission.Reorders other) :
    (left.prepare submission).Renumbers (right.prepare other) := by
  have members := reorders.mem_requested
  cases reorders with
  | tasks =>
      refine Renumbers.requestAll ?_ members _
      cases same with
      | of catalogs => exact .of (catalogs.internAll members)
  | items => exact same.requestAll members _

end Plan

/-! ## Walks -/

namespace Walk

variable {left right : Walk} {resolver : Resolver}

/-- The walks are at the same point, in plans that differ in nothing but the numbers of items. -/
inductive Renumbers (walk : Walk) : Walk → Prop where
  | of {plan : Plan} : walk.plan.Renumbers plan → Renumbers walk { walk with plan }

/-- The steps lead to the same point, or stop with the same result. -/
inductive Progress.Renumbers : Progress → Progress → Prop where
  | going {left right : Walk} : left.Renumbers right → Renumbers (.going left) (.going right)
  | stopped {left right : Attempt Unit} :
      left.Renumbers right → Renumbers (.stopped left) (.stopped right)

theorem Renumbers.enter (same : left.Renumbers right) (visit : Visit) :
    (left.enter resolver visit).Renumbers (right.enter resolver visit) := by
  cases same with
  | of plans =>
      have asking := plans.inquire visit.item
      unfold Walk.enter
      dsimp only
      cases resolver.answer visit.item with
      | error fault => exact .stopped (.of asking)
      | ok resolution =>
          have adopted := asking.adopt visit.item resolution
          dsimp only
          generalize closedByAny _ _ = closed
          cases closed with
          | some cycle => exact .stopped (.of adopted)
          | none => exact .going (.of adopted)

theorem Renumbers.leave (same : left.Renumbers right) (visit : Visit) (rest : List Visit) :
    (left.leave visit rest).Renumbers (right.leave visit rest) := by
  cases same with
  | of plans =>
      have enrolled := plans.enroll visit.item
      unfold Walk.leave
      dsimp only
      rw [enrolled.toInventory.relations_eq]
      exact .of enrolled

/-- No step looks at a number. -/
theorem Renumbers.step (same : left.Renumbers right) (resolver : Resolver) :
    (left.step resolver).Renumbers (right.step resolver) := by
  cases same with
  | @of plan plans =>
      obtain ⟨current, queue, visiting, path⟩ := left
      have node := plans.toInventory.node_eq
      have accepts : plan.acceptsItem = current.acceptsItem := by
        cases plans
        rfl
      unfold Walk.step
      dsimp only at plans node accepts ⊢
      rw [node, accepts]
      cases queue with
      | nil => exact .stopped (.of plans)
      | cons visit rest =>
          dsimp only
          by_cases shut : ((current.node visit.item).processed ||
              (current.node visit.item).cannotRun) = true
          · rw [if_pos shut, if_pos shut]
            exact .going (.of plans)
          rw [if_neg shut, if_neg shut]
          by_cases rejected : (!current.acceptsItem visit.item) = true
          · rw [if_pos rejected, if_pos rejected]
            exact .going (.of (plans.setAside visit.item))
          rw [if_neg rejected, if_neg rejected]
          by_cases inside : visit.item ∈ visiting
          · rw [if_pos inside, if_pos inside]
            exact .going (Renumbers.leave (.of plans) visit rest)
          · rw [if_neg inside, if_neg inside]
            exact Renumbers.enter (.of plans) visit

theorem Renumbers.run (same : left.Renumbers right) (steps : Nat) :
    (run resolver steps left).Renumbers (run resolver steps right) := by
  induction steps generalizing left right with
  | zero =>
      cases same with
      | of plans => exact .of plans
  | succ steps ih =>
      unfold Walk.run
      have progress := same.step resolver
      generalize left.step resolver = first at progress ⊢
      generalize right.step resolver = second at progress ⊢
      cases progress with
      | going walks => exact ih walks
      | stopped attempts => exact attempts

end Walk

/-! ## Requests and schedules -/

namespace Plan

variable {left right : Plan} {submission other : Submission} {submissions others : List Submission}
  {resolver : Resolver}

/-- Take requests in order, whether they succeed or not, and collect what each of them gives. -/
def takeEach (resolver : Resolver) : List Submission → Plan → List (Except PlanError Unit) × Plan
  | [], plan => ([], plan)
  | submission :: rest, plan =>
      let attempt := plan.take resolver submission
      let behind := takeEach resolver rest attempt.plan
      (attempt.result :: behind.1, behind.2)

theorem Renumbers.take (same : left.Renumbers right) (resolver : Resolver)
    (reorders : submission.Reorders other) :
    (left.take resolver submission).Renumbers (right.take resolver other) := by
  have finalized : right.isFinalized = left.isFinalized := by
    cases same
    rfl
  by_cases shut : left.isFinalized = true
  · rw [take_of_isFinalized shut, take_of_isFinalized (finalized.trans shut)]
    exact .of same
  · rw [Bool.not_eq_true] at shut
    have visits : other.visits = submission.visits := by
      unfold Submission.visits
      rw [WorkItem.arranged_eq_iff.mpr reorders.mem_requested]
    rw [take_eq shut, take_eq (finalized.trans shut), visits]
    exact Walk.Renumbers.run (.of (same.prepare reorders)) _

theorem Renumbers.takeEach (same : left.Renumbers right) (resolver : Resolver)
    (reorders : List.Forall₂ Submission.Reorders submissions others) :
    (right.takeEach resolver others).1 = (left.takeEach resolver submissions).1 ∧
      (left.takeEach resolver submissions).2.Renumbers (right.takeEach resolver others).2 := by
  induction reorders generalizing left right with
  | nil => exact ⟨rfl, same⟩
  | @cons submission other rest _ reorders _ ih =>
      have attempts := same.take resolver reorders
      unfold Plan.takeEach
      dsimp only
      generalize left.take resolver submission = first at attempts ⊢
      generalize right.take resolver other = second at attempts ⊢
      cases attempts with
      | of plans =>
          obtain ⟨results, last⟩ := ih plans
          exact ⟨congrArg (first.result :: ·) results, last⟩

theorem Renumbers.determine (same : left.Renumbers right) :
    left.determine.Renumbers right.determine := by
  cases same with
  | @of catalog catalogs =>
      have marked := (Inventory.Renumbers.of catalogs).withMarkers
      have scheduled := marked.schedule_eq
      unfold Plan.determine
      dsimp only
      rw [scheduled]
      generalize left.toInventory.withMarkers = before at marked ⊢
      generalize Inventory.withMarkers { left.toInventory with catalog } = after at marked ⊢
      cases marked with
      | of markedCatalogs =>
          split
          · cases before.schedule with
            | error report => exact .of (.of markedCatalogs)
            | ok schedule => exact .of (.of markedCatalogs)
          · exact .of (.of catalogs)

theorem Renumbers.finalize (same : left.Renumbers right) :
    left.finalize.Renumbers right.finalize := by
  have determined := same.determine
  unfold Plan.finalize
  generalize left.determine = first at determined ⊢
  generalize right.determine = second at determined ⊢
  cases determined with
  | of plans =>
      cases plans with
      | of catalogs =>
          dsimp only
          cases first.result with
          | error error => exact .of (.of catalogs)
          | ok schedule => exact .of (.of catalogs)

/-- The order in which requests name their items does not matter, nor how often they name them. The
same requests fail, with the same errors. The plans list the same items in the same order, know the
same about each of them, and have the same schedule. Items may have other numbers, which is all that
is different. -/
theorem takeEach_reorders (plan : Plan) (resolver : Resolver)
    (reorders : List.Forall₂ Submission.Reorders submissions others) :
    let (results, left) := plan.takeEach resolver submissions
    let (otherResults, right) := plan.takeEach resolver others
    otherResults = results ∧
      right = { left with catalog := right.catalog } ∧
      (∀ item, right.node item = left.node item) ∧
      right.determine.result = left.determine.result ∧
      right.finalize.result = left.finalize.result ∧
      right.catalog.size = left.catalog.size ∧
      ∃ rename restore : Nat → Nat, ∀ item,
        right.catalog.number? item = (left.catalog.number? item).map rename ∧
        left.catalog.number? item = (right.catalog.number? item).map restore := by
  obtain ⟨results, same⟩ := (Renumbers.refl plan).takeEach resolver reorders
  obtain ⟨rename, renamed⟩ := same.catalog.exists_rename
  obtain ⟨restore, restored⟩ := same.catalog.symm.exists_rename
  exact ⟨results, same.eq_of_catalog, same.catalog.node, same.determine.result_eq,
    same.finalize.result_eq, same.catalog.size_eq, rename, restore,
    fun item => ⟨renamed item, restored item⟩⟩

/-- The tests are the first to be mentioned by the one request, and the last by the other. -/
theorem takeEach_reorders_example :
    let second := .items [.task "compile"] (some (.ofPosition 1))
    let requests := [.tasks ["test", "lint"] none, second]
    let reordered := [.tasks ["lint", "test", "lint"] none, second]
    List.Forall₂ Submission.Reorders requests reordered ∧
      (examplePlan.takeEach exampleResolver requests).2.catalog.number? (.task "test") = some 0 ∧
      (examplePlan.takeEach exampleResolver reordered).2.catalog.number? (.task "test") = some 1 ∧
      (examplePlan.takeEach exampleResolver reordered).2.finalize.result =
        (examplePlan.takeEach exampleResolver requests).2.finalize.result := by
  intro second requests reordered
  have reorders : List.Forall₂ Submission.Reorders requests reordered := by
    refine .cons (.tasks fun name => ?_) (.cons (.items fun _ => Iff.rfl) .nil)
    simp only [List.mem_cons, List.not_mem_nil, or_false]
    tauto
  exact ⟨reorders, rfl, rfl, (examplePlan.takeEach_reorders exampleResolver reorders).2.2.2.2.1⟩

end Plan

end TaskPlanner
