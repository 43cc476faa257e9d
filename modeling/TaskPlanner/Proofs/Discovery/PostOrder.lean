import Mathlib.Data.List.TakeWhile
import TaskPlanner.Proofs.Discovery.Accounts
import TaskPlanner.Proofs.Discovery.Cycles
import TaskPlanner.Proofs.Discovery.Reachability
import TaskPlanner.Proofs.Graph.Linearization

/-! Discovery in post-order. If no finalizers are reported, a walk that does not fail enters each
item behind the items that it depends on. The only way to enter an item before one of its
dependencies would be to come back to a dependency that is being walked, and such a dependency
closes a cycle. -/

set_option autoImplicit false

namespace TaskPlanner

/-- The resolver reports no finalizers. -/
def Resolver.LacksFinalizers (resolver : Resolver) : Prop :=
  ∀ item resolution, resolver.answer item = .ok resolution → resolution.finalizers = []

theorem Resolver.LacksFinalizers.exists_dependency {resolver : Resolver}
    (lacks : resolver.LacksFinalizers) {source target : WorkItem}
    (orders : resolver.Orders source target) :
    ∃ resolution, resolver.answer target = .ok resolution ∧
      source ∈ resolution.relations.dependencies := by
  cases orders with
  | inl dependency => exact dependency
  | inr finalizer =>
      obtain ⟨resolution, answered, listed⟩ := finalizer
      simp [lacks source resolution answered] at listed

namespace Plan

/-- The item is not among the items to run, because the filter rejects it or it cannot run. -/
def LeavesOut (plan : Plan) (item : WorkItem) : Prop :=
  item ∈ plan.filtered ∨ (plan.node item).cannotRun = true

/-- Whatever an item of the index waits for is in front of it, or left out. -/
def IsPostOrdered (resolver : Resolver) (plan : Plan) : Prop :=
  ∀ earlier item later, plan.index.items = earlier ++ item :: later →
    ∀ before, resolver.Orders before item → before ∈ earlier ∨ plan.LeavesOut before

variable {plan before after : Plan} {resolver : Resolver} {item : WorkItem}

theorem accountsFor_nil_iff :
    plan.AccountsFor [] item ↔ item ∈ plan.index ∨ plan.LeavesOut item := by
  simp [Inventory.AccountsFor, LeavesOut, Inventory.node]

theorem IsPostOrdered.of_index_eq (ordered : before.IsPostOrdered resolver)
    (index : after.index = before.index)
    (leavesOut : ∀ item, before.LeavesOut item → after.LeavesOut item) :
    after.IsPostOrdered resolver := by
  intro earlier item later split source orders
  rw [index] at split
  exact (ordered earlier item later split source orders).imp_right (leavesOut source)

end Plan

namespace Walk

variable {base : Plan} {resolver : Resolver} {entries : List WorkItem} {walk next : Walk}
  {path ahead queue rest : List Visit} {visit : Visit}

/-! ## What is on the path -/

/-- The walk is between two requests, or everything that is queued above the request being walked
came about as a dependency. -/
def Nested (path queue : List Visit) : Prop :=
  path = [] ∨ ∃ inner bottom above rest,
    path = inner ++ [bottom] ∧ queue = above ++ bottom :: rest ∧
      bottom.link ≠ .dependency ∧ ∀ visit ∈ inner ++ above, visit.link = .dependency

theorem Nested.tail (nested : Nested path (visit :: rest)) (outside : visit ∉ path) :
    Nested path rest := by
  refine nested.imp_right ?_
  rintro ⟨inner, bottom, above, behind, rfl, split, unlinked, linked⟩
  cases above with
  | nil =>
      cases split
      simp at outside
  | cons first above =>
      cases split
      refine ⟨inner, bottom, above, behind, rfl, rfl, unlinked, fun other member => ?_⟩
      apply linked
      simp only [List.mem_append, List.mem_cons] at member ⊢
      tauto

theorem Nested.pop (nested : Nested (visit :: path) (visit :: rest)) : Nested path rest := by
  obtain none | ⟨inner, bottom, above, behind, onPath, split, unlinked, linked⟩ := nested
  · cases none
  cases inner with
  | nil =>
      cases onPath
      exact .inl rfl
  | cons first inner =>
      obtain ⟨rfl, rfl⟩ := List.cons.inj onPath
      have dependency := linked visit (by simp)
      cases above with
      | nil =>
          cases split
          exact absurd dependency unlinked
      | cons first above =>
          cases split
          refine .inr ⟨inner, bottom, above, behind, rfl, rfl, unlinked, fun other member => ?_⟩
          apply linked
          simp only [List.mem_append, List.mem_cons] at member ⊢
          tauto

theorem Nested.push (nested : Nested path (visit :: rest)) (outside : visit ∉ path)
    (unlinked : path = [] → visit.link ≠ .dependency)
    (fresh : ∀ other ∈ ahead, other.link = .dependency) :
    Nested (visit :: path) (ahead ++ visit :: rest) := by
  right
  obtain rfl | ⟨inner, bottom, above, behind, rfl, split, bottomUnlinked, linked⟩ := nested
  · exact ⟨[], visit, ahead, rest, rfl, rfl, unlinked rfl, fresh⟩
  · cases above with
    | nil =>
        cases split
        simp at outside
    | cons first above =>
        cases split
        refine ⟨visit :: inner, bottom, ahead ++ visit :: above, behind, rfl, ?_, bottomUnlinked,
          fun other member => ?_⟩
        · simp
        · simp only [List.mem_append, List.mem_cons] at member linked
          have known := linked other
          have added := fresh other
          tauto

/-- A dependency on the path closes a cycle. -/
theorem closedByAny_ne_none {target : WorkItem} {dependencies : List WorkItem}
    (nested : Nested path queue) (onPath : target ∈ path.map (·.item))
    (member : target ∈ dependencies) : closedByAny path dependencies ≠ none := by
  obtain rfl | ⟨inner, bottom, above, rest, rfl, -, -, linked⟩ := nested
  · cases onPath
  intro unclosed
  have front := List.takeWhile_prefix (fun visit : Visit => decide (visit.item ≠ target))
    (l := inner ++ [bottom])
  have stops : (inner ++ [bottom]).takeWhile (fun visit => decide (visit.item ≠ target)) ≠
      inner ++ [bottom] := by
    intro whole
    obtain ⟨visit, listed, rfl⟩ := List.mem_map.mp onPath
    simpa using List.takeWhile_eq_self_iff.mp whole visit listed
  have shorter := Nat.lt_of_le_of_ne front.length_le fun same => stops (front.eq_of_length same)
  have within := (List.prefix_concat_iff.mp front).resolve_left stops
  have closes := List.findSome?_eq_none_iff.mp unclosed target (List.mem_reverse.mpr member)
  simp only [closedBy, ite_eq_right_iff, Bool.and_eq_true, decide_eq_true_eq, List.all_eq_true,
    reduceCtorEq, imp_false, not_and] at closes
  exact closes shorter fun visit inside =>
    linked visit (List.mem_append_left _ (within.subset inside))

/-- A step into an item goes on only if none of its dependencies closes a cycle. -/
theorem closedByAny_eq_none {resolution : Resolution} (goes : walk.step resolver = .going next)
    (front : walk.queue = visit :: rest) (isOpen : walk.IsOpen visit)
    (accepted : walk.plan.acceptsItem visit.item = true) (outside : visit.item ∉ walk.visiting)
    (answered : resolver.answer visit.item = .ok resolution) :
    closedByAny (visit :: walk.path)
      (resolution.relations.dependencies.filter (· ∈ visit.item :: walk.visiting)) = none := by
  cases closed : closedByAny (visit :: walk.path)
    (resolution.relations.dependencies.filter (· ∈ visit.item :: walk.visiting)) with
  | none => rfl
  | some items =>
      simp only [step, front, isOpen.1, isOpen.2, accepted, outside, enter, answered, closed,
        Bool.or_self, Bool.false_eq_true, Bool.not_true, if_false, reduceCtorEq] at goes

/-! ## What a step keeps -/

/-- What is being walked waits for nothing but what is entered, left out, or walked before it. -/
structure InTurn (resolver : Resolver) (walk : Walk) : Prop where
  nested : Nested walk.path walk.queue
  pending : ∀ item ∈ walk.visiting, ∀ before, resolver.Orders before item →
    walk.plan.AccountsFor [] before ∨ before ∈ walk.ahead item
  ordered : walk.plan.IsPostOrdered resolver

theorem Moves.leavesOut (moves : Moves resolver walk next) {item : WorkItem}
    (out : walk.plan.LeavesOut item) : next.plan.LeavesOut item := by
  have cannotRun := moves.cannotRun_eq item
  unfold Plan.LeavesOut
  rw [cannotRun]
  cases moves with
  | drop => exact out
  | setAside => exact out.imp_left fun listed => ItemSet.mem_insert.mpr (.inl listed)
  | leave => exact out
  | descend => exact out

theorem queue_leave (lacks : resolver.LacksFinalizers) (consistent : Consistent base resolver walk)
    (inside : visit.item ∈ walk.visiting) : (walk.leave visit rest).queue = rest := by
  obtain ⟨resolution, answered, related⟩ := consistent.relations visit.item (.inr inside)
  have none : (walk.plan.relations visit.item).finalizers = [] := by
    rw [related]
    exact lacks visit.item resolution answered
  simp [Walk.leave, none]

theorem Moves.nested (moves : Moves resolver walk next) (lacks : resolver.LacksFinalizers)
    (consistent : Consistent base resolver walk) (disciplined : Disciplined resolver walk)
    (nested : Nested walk.path walk.queue) : Nested next.path next.queue := by
  obtain ⟨_, visiting, stacked⟩ := disciplined
  have offPath : ∀ visit : Visit, visit.item ∉ walk.visiting → visit ∉ walk.path := by
    intro visit outside onPath
    exact outside (visiting ▸ List.mem_map_of_mem onPath)
  cases moves with
  | @drop visit rest front shut =>
      rw [front] at nested
      exact nested.tail (offPath visit (consistent.returns.not_mem_of_not_isOpen shut))
  | @setAside visit rest front isOpen rejected =>
      rw [front] at nested
      exact nested.tail (offPath visit (consistent.returns.not_mem_of_rejected rejected))
  | @leave visit rest front isOpen accepted inside =>
      rw [front] at nested stacked
      obtain ⟨outer, split, -⟩ := stacked.pop (visiting ▸ inside)
      show Nested walk.path.tail _
      rw [queue_leave lacks consistent inside, split]
      rw [split] at nested
      exact nested.pop
  | @descend visit rest resolution front isOpen accepted outside answered =>
      show Nested (visit :: walk.path) (_ ++ walk.queue)
      rw [front] at nested stacked ⊢
      apply nested.push (offPath visit outside)
      · intro idle
        rw [idle] at stacked
        cases stacked with
        | bottom unlinked => exact unlinked visit List.mem_cons_self
      · intro other member
        obtain ⟨item, _, rfl⟩ := List.mem_map.mp member
        rfl

theorem InTurn.pending_next (inTurn : walk.InTurn resolver)
    (goes : walk.step resolver = .going next) (moves : Moves resolver walk next)
    (lacks : resolver.LacksFinalizers) (consistent : Consistent base resolver walk)
    (disciplined : Disciplined resolver next) (nested : Nested next.path next.queue)
    {item before : WorkItem} (inside : item ∈ next.visiting)
    (orders : resolver.Orders before item) :
    next.plan.AccountsFor [] before ∨ before ∈ next.ahead item := by
  by_cases entered : item ∈ walk.visiting
  · cases inTurn.pending item entered before orders with
    | inl known => exact .inl (moves.accountsFor known)
    | inr still => exact moves.meets (fun other => (consistent.processed other).mp) inside still
  · cases moves with
    | drop => exact absurd inside entered
    | setAside => exact absurd inside entered
    | leave => exact absurd (List.mem_of_mem_erase inside) entered
    | @descend visit rest resolution front isOpen accepted outside answered =>
        obtain rfl := (List.mem_cons.mp inside).resolve_right entered
        obtain ⟨same, told, related⟩ := lacks.exists_dependency orders
        cases answered.symm.trans told
        have unclosed := closedByAny_eq_none goes front isOpen accepted outside answered
        refine .inr (mem_ahead_descend related fun walked => ?_)
        have onPath : before ∈ (visit :: walk.path).map (·.item) := disciplined.visiting ▸ walked
        apply closedByAny_ne_none nested onPath _ unclosed
        exact List.mem_filter.mpr ⟨related, decide_eq_true walked⟩

theorem InTurn.ordered_next (inTurn : walk.InTurn resolver) (moves : Moves resolver walk next)
    (consistent : Consistent base resolver walk) : next.plan.IsPostOrdered resolver := by
  have out : ∀ item, walk.plan.LeavesOut item → next.plan.LeavesOut item :=
    fun _ => moves.leavesOut
  cases moves with
  | drop => exact inTurn.ordered
  | setAside => exact inTurn.ordered.of_index_eq rfl out
  | descend => exact inTurn.ordered.of_index_eq rfl out
  | @leave visit rest front isOpen accepted inside =>
      have items : (walk.leave visit rest).plan.index.items =
          walk.plan.index.items ++ [visit.item] :=
        items_insert_of_not_mem (consistent.not_mem_index isOpen)
      unfold Plan.IsPostOrdered
      rw [items]
      apply Graph.forall_split_concat
      · intro earlier item later split before orders
        exact (inTurn.ordered earlier item later split before orders).imp_right (out before)
      · -- The walk has come back to the item, so nothing is ahead of it any more.
        intro before orders
        have met := inTurn.pending visit.item inside before orders
        rw [ahead_front front] at met
        exact (Plan.accountsFor_nil_iff.mp (met.resolve_right List.not_mem_nil)).imp_right
          (out before)

/-- Without finalizers, a walk that does not fail ends in post-order. -/
theorem Ends.isPostOrdered {attempt : Attempt Unit} (ends : Ends resolver walk attempt)
    (lacks : resolver.LacksFinalizers) (explores : Explores base resolver entries walk)
    (disciplined : Disciplined resolver walk) (inTurn : walk.InTurn resolver)
    (succeeded : attempt.result = .ok ()) : attempt.plan.IsPostOrdered resolver := by
  induction ends with
  | @stop walk attempt stopped =>
      rw [((Stops.of_step stopped).of_ok succeeded).2]
      exact inTurn.ordered
  | @go walk next attempt goes _ ih =>
      have moves := Moves.of_step goes
      have consistent := explores.consistent
      have entered := moves.disciplined disciplined
      have nested := moves.nested lacks consistent disciplined inTurn.nested
      have continues : next.InTurn resolver :=
        ⟨nested, fun item inside before orders =>
          inTurn.pending_next goes moves lacks consistent entered nested inside orders,
          inTurn.ordered_next moves consistent⟩
      exact ih (moves.explores explores) entered continues succeeded

end Walk

end TaskPlanner
