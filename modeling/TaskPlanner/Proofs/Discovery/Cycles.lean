import Mathlib.Data.List.Chain
import Mathlib.Data.List.Nodup
import TaskPlanner.Proofs.Discovery.Stack

/-! A cycle that discovery reports is a cycle of what the requests need. The queue of a walk is a
stack: above the place of each item that is being walked stand only its dependencies and
finalizers of what was left since, and none of them is an item further down the path. -/

set_option autoImplicit false

namespace TaskPlanner

/-- The resolver tells that `item` depends on `other`. -/
def Resolver.DependsOn (resolver : Resolver) (item other : WorkItem) : Prop :=
  ∃ resolution, resolver.answer item = .ok resolution ∧ other ∈ resolution.relations.dependencies

/-- Each of the items depends on the next one. The last is the first again, and otherwise none
comes twice. -/
def Resolver.IsCycle (resolver : Resolver) (items : List WorkItem) : Prop :=
  ∃ first others, items = first :: others ++ [first] ∧ (first :: others).Nodup ∧
    items.IsChain resolver.DependsOn

/-- The resolver tells that `target` waits for `source`: it depends on it, or finalizes it. -/
def Resolver.Orders (resolver : Resolver) (source target : WorkItem) : Prop :=
  (∃ resolution, resolver.answer target = .ok resolution ∧
    source ∈ resolution.relations.dependencies) ∨
  ∃ resolution, resolver.answer source = .ok resolution ∧ target ∈ resolution.finalizers

/-- Of two items that the entries need, the second has to wait for the first. -/
def Plan.Precedes (plan : Plan) (resolver : Resolver) (entries : List WorkItem)
    (source target : WorkItem) : Prop :=
  plan.Needs resolver entries source ∧ plan.Needs resolver entries target ∧
    resolver.Orders source target

theorem Plan.Precedes.mono {plan : Plan} {resolver : Resolver} {entries larger : List WorkItem}
    (subset : entries ⊆ larger) {source target : WorkItem}
    (precedes : plan.Precedes resolver entries source target) :
    plan.Precedes resolver larger source target :=
  ⟨precedes.1.mono subset, precedes.2.1.mono subset, precedes.2.2⟩

namespace Walk

variable {base : Plan} {resolver : Resolver} {entries : List WorkItem} {walk next : Walk}
  {path ahead queue rest : List Visit} {visit : Visit}

/-- A visit that came about as a dependency did so for the item at the head of the path. -/
def Follows (resolver : Resolver) (path : List Visit) (visit : Visit) : Prop :=
  visit.link = .dependency → ∃ outer, path.head? = some outer ∧
    resolver.DependsOn outer.item visit.item

/-- The queue holds the visits of the path, and above each of them what was queued since. -/
inductive Stacked (resolver : Resolver) : List Visit → List Visit → Prop where
  | bottom {queue : List Visit} : (∀ visit ∈ queue, visit.link ≠ .dependency) →
      Stacked resolver [] queue
  | push {visit : Visit} {path ahead queue : List Visit} :
      (∀ other ∈ ahead, other.item ∉ (visit :: path).map (·.item) ∧
        Follows resolver (visit :: path) other) →
      Follows resolver path visit → Stacked resolver path queue →
      Stacked resolver (visit :: path) (ahead ++ visit :: queue)

theorem stacked_iff : Stacked resolver path queue ↔ Piled (Follows resolver) path queue := by
  constructor
  · intro stacked
    induction stacked with
    | bottom unlinked => exact .bottom fun visit member linked => absurd linked (unlinked visit member)
    | push above follows _ ih => exact .push above follows ih
  · intro piled
    induction piled with
    | bottom idle =>
        refine .bottom fun visit member linked => ?_
        obtain ⟨_, none, _⟩ := idle visit member linked
        cases none
    | push above follows _ ih => exact .push above follows ih

/-- A visit in front that is on the path is its head. -/
theorem Stacked.pop (stacked : Stacked resolver path (visit :: rest))
    (inside : visit.item ∈ path.map (·.item)) :
    ∃ outer, path = visit :: outer ∧ Stacked resolver outer rest := by
  obtain ⟨outer, split, below⟩ := (stacked_iff.mp stacked).pop inside
  exact ⟨outer, split, stacked_iff.mpr below⟩

/-- The walk comes back to the items on its path, these are the items that are being walked, and
the queue is stacked on the path. -/
structure Disciplined (resolver : Resolver) (walk : Walk) : Prop where
  returns : walk.Returns
  visiting : walk.visiting = walk.path.map (·.item)
  stacked : Stacked resolver walk.path walk.queue

theorem disciplined_iff : Disciplined resolver walk ↔ Tidy (Follows resolver) walk :=
  ⟨fun disciplined => ⟨disciplined.returns, disciplined.visiting, stacked_iff.mp disciplined.stacked⟩,
    fun tidy => ⟨tidy.returns, tidy.visiting, stacked_iff.mpr tidy.piled⟩⟩

theorem Moves.disciplined (moves : Moves resolver walk next)
    (disciplined : Disciplined resolver walk) : Disciplined resolver next := by
  refine disciplined_iff.mpr (moves.tidy (disciplined_iff.mp disciplined) ?_ ?_ ?_)
  · exact fun _ _ _ => id
  · exact fun _ _ => Link.noConfusion
  · exact fun visit resolution _ _ answered depends _ => ⟨visit, rfl, resolution, answered, depends⟩

theorem Reaches.disciplined {last : Walk} (reaches : Reaches resolver walk last)
    (disciplined : Disciplined resolver walk) : Disciplined resolver last := by
  induction reaches with
  | refl => exact disciplined
  | tail _ moves ih => exact moves.disciplined ih

/-- Along a stretch of the path that consists of dependencies, each item depends on the one
further in. -/
theorem Stacked.isChain {inner : List Visit} {outer : Visit}
    (stacked : Stacked resolver (inner ++ outer :: rest) queue)
    (linked : ∀ visit ∈ inner, visit.link = .dependency) :
    (inner ++ [outer]).IsChain fun visit further => resolver.DependsOn further.item visit.item := by
  induction inner generalizing queue with
  | nil => simp
  | cons visit inner ih =>
      rw [List.cons_append] at stacked
      cases stacked with
      | push above follows below =>
          obtain ⟨further, first, depends⟩ := follows (linked visit List.mem_cons_self)
          rw [List.cons_append, List.isChain_cons]
          refine ⟨fun other head => ?_,
            ih below fun other member => linked other (List.mem_cons_of_mem _ member)⟩
          have same : other = further := by
            cases inner <;> simp_all
          rw [same]
          exact depends

/-- A dependency closes a cycle with what the path has below it, if all of that consists of
dependencies. -/
theorem closedBy_cases {target : WorkItem} {items : List WorkItem}
    (closed : closedBy path target = some items) :
    ∃ inner outer rest, path = inner ++ outer :: rest ∧ outer.item = target ∧
      (∀ visit ∈ inner, visit.link = .dependency) ∧
      items = target :: (inner.map (·.item)).reverse ++ [target] := by
  unfold closedBy at closed
  dsimp only at closed
  split at closed
  next condition =>
    obtain ⟨shorter, linked⟩ := (Bool.and_eq_true _ _).mp condition
    have split := List.takeWhile_append_dropWhile (p := fun visit : Visit => visit.item ≠ target)
      (l := path)
    cases dropped : path.dropWhile fun visit => decide (visit.item ≠ target) with
    | nil =>
        rw [dropped, List.append_nil] at split
        rw [split] at shorter
        exact absurd (of_decide_eq_true shorter) (Nat.lt_irrefl _)
    | cons outer rest =>
        have stops := List.head?_dropWhile_not
          (fun visit : Visit => decide (visit.item ≠ target)) path
        rw [dropped] at split stops
        refine ⟨_, outer, rest, split.symm, by simpa using stops, fun visit member => ?_,
          (Option.some.inj closed).symm⟩
        simpa using List.all_eq_true.mp linked visit member
  next => cases closed

/-- What the walk reports when the innermost item of the path depends on another one of the path
is a cycle of dependencies. -/
theorem Stacked.isCycle (stacked : Stacked resolver (visit :: path) queue)
    (distinct : ((visit :: path).map (·.item)).Nodup) {dependencies items : List WorkItem}
    (depends : ∀ item ∈ dependencies, resolver.DependsOn visit.item item)
    (closed : closedByAny (visit :: path) dependencies = some items) :
    resolver.IsCycle items ∧ items ⊆ (visit :: path).map (·.item) := by
  obtain ⟨target, listed, closes⟩ := List.exists_of_findSome?_eq_some closed
  obtain ⟨inner, outer, rest, split, rfl, linked, rfl⟩ := closedBy_cases closes
  have closing := depends outer.item (List.mem_reverse.mp listed)
  rw [split] at stacked distinct ⊢
  have stretch : outer.item :: (inner.map (·.item)).reverse =
      ((inner ++ [outer]).map (·.item)).reverse := by simp
  have innermost : ((inner ++ [outer]).map (·.item)).head? = some visit.item := by
    cases inner <;> simp_all
  have chain : (outer.item :: (inner.map (·.item)).reverse).IsChain resolver.DependsOn := by
    rw [stretch, List.isChain_reverse, List.isChain_map]
    exact stacked.isChain linked
  refine ⟨⟨outer.item, _, rfl, ?_, ?_⟩, ?_⟩
  · rw [stretch, List.nodup_reverse]
    refine distinct.sublist ?_
    simp
  · apply chain.append (List.isChain_singleton _)
    intro last atEnd other first
    rw [stretch, List.getLast?_reverse, innermost] at atEnd
    cases atEnd
    cases first
    exact closing
  · intro item member
    have known : item = outer.item ∨ item ∈ inner.map (·.item) := by
      simpa [or_comm, or_assoc] using member
    cases known with
    | inl same => simp [same]
    | inr inside => exact List.map_append ▸ List.mem_append_left _ inside

/-- Along a cycle of items that are needed, each item has to wait for the next one. -/
theorem exists_transGen_of_isCycle {items : List WorkItem} (cycle : resolver.IsCycle items)
    (needed : ∀ item ∈ items, base.Needs resolver entries item) :
    ∃ item, Relation.TransGen (base.Precedes resolver entries) item item := by
  obtain ⟨first, others, rfl, -, chain⟩ := cycle
  refine ⟨first, Relation.transGen_swap.mp ?_⟩
  have waits : (first :: (others ++ [first])).IsChain
      (Relation.TransGen (Function.swap (base.Precedes resolver entries))) := by
    apply chain.imp_of_mem_imp
    intro item other member present depends
    exact .single ⟨needed other present, needed item member, .inl depends⟩
  apply waits.rel_cons
  simp

/-- A cycle that a walk reports is one of what the entries need. -/
theorem Explores.exists_cycle (explores : Explores base resolver entries walk)
    (disciplined : Disciplined resolver walk) (front : walk.queue = visit :: rest)
    (isOpen : walk.IsOpen visit) (accepted : walk.plan.acceptsItem visit.item = true)
    (outside : visit.item ∉ walk.visiting) {resolution : Resolution}
    (answered : resolver.answer visit.item = .ok resolution) {items : List WorkItem}
    (closed : closedByAny (visit :: walk.path)
      (resolution.relations.dependencies.filter (· ∈ visit.item :: walk.visiting)) = some items) :
    ∃ item, Relation.TransGen (base.Precedes resolver entries) item item := by
  have descended := Moves.descend front isOpen accepted outside answered
  have sound := descended.sound explores.consistent explores.sound
  obtain ⟨returns, visiting, stacked⟩ := descended.disciplined disciplined
  obtain ⟨cycle, onPath⟩ := stacked.isCycle (visiting ▸ returns.entered)
    (fun item member => ⟨resolution, answered, (List.mem_filter.mp member).1⟩) closed
  apply exists_transGen_of_isCycle cycle
  intro item member
  apply sound.needed item
  right
  rw [visiting]
  exact onPath member

end Walk

end TaskPlanner
