import TaskPlanner.Proofs.Discovery.Exploration
import TaskPlanner.Resolver.Rows

/-! The queue of a walk is a stack. It holds the visits of the path, innermost first, and above each
of them only what was queued since: dependencies of the item, and finalizers of what was left. So
the walk comes back to the items of the path from the inside out, whoever answers for them. -/

set_option autoImplicit false

namespace TaskPlanner.Walk

variable {resolver : Resolver} {walk next : Walk} {follows further : List Visit → Visit → Prop}
  {path ahead queue rest inner outer : List Visit} {visit : Visit} {plan : Plan}

/-! ## Queues on a path -/

/-- The queue holds the visits of the path, and above each of them what was queued since. What
stands above a part of the path follows it. -/
inductive Piled (follows : List Visit → Visit → Prop) : List Visit → List Visit → Prop
  | bottom {queue : List Visit} : (∀ visit ∈ queue, follows [] visit) → Piled follows [] queue
  | push {visit : Visit} {path ahead queue : List Visit} :
      (∀ other ∈ ahead, other.item ∉ (visit :: path).map (·.item) ∧
        follows (visit :: path) other) →
      follows path visit → Piled follows path queue →
      Piled follows (visit :: path) (ahead ++ visit :: queue)

/-- A visit in front that is not on the path can be taken off. -/
theorem Piled.tail (piled : Piled follows path (visit :: rest))
    (outside : visit.item ∉ path.map (·.item)) : follows path visit ∧ Piled follows path rest := by
  generalize whole : visit :: rest = queue at piled
  cases piled with
  | bottom idle =>
      subst whole
      exact ⟨idle visit List.mem_cons_self,
        .bottom fun other member => idle other (List.mem_cons_of_mem _ member)⟩
  | @push head path ahead queue above below piled =>
      cases ahead with
      | nil =>
          cases whole
          exact absurd List.mem_cons_self outside
      | cons first later =>
          cases whole
          exact ⟨(above visit List.mem_cons_self).2,
            .push (fun other member => above other (List.mem_cons_of_mem _ member)) below piled⟩

/-- A visit in front that is on the path is its head. -/
theorem Piled.pop (piled : Piled follows path (visit :: rest))
    (inside : visit.item ∈ path.map (·.item)) :
    ∃ outer, path = visit :: outer ∧ Piled follows outer rest := by
  generalize whole : visit :: rest = queue at piled
  cases piled with
  | bottom => cases inside
  | @push head path ahead queue above below piled =>
      cases ahead with
      | nil =>
          cases whole
          exact ⟨path, rfl, piled⟩
      | cons first later =>
          cases whole
          exact absurd inside (above visit List.mem_cons_self).1

theorem Piled.prepend (piled : Piled follows path queue)
    (fresh : ∀ other ∈ ahead, other.item ∉ path.map (·.item) ∧ follows path other) :
    Piled follows path (ahead ++ queue) := by
  cases piled with
  | bottom idle =>
      refine .bottom fun other member => ?_
      rcases List.mem_append.mp member with added | old
      · exact (fresh other added).2
      · exact idle other old
  | push above below piled =>
      rw [← List.append_assoc]
      refine .push (fun other member => ?_) below piled
      rcases List.mem_append.mp member with added | old
      · exact fresh other added
      · exact above other old

theorem Piled.imp (piled : Piled follows path queue)
    (keeps : ∀ outer visit, outer <:+ path → follows outer visit → further outer visit) :
    Piled further path queue := by
  induction piled with
  | bottom idle =>
      exact .bottom fun other member => keeps _ other (List.suffix_refl _) (idle other member)
  | @push visit path ahead queue above below _ ih =>
      refine .push (fun other member => ?_) ?_ (ih fun outer other suffix => ?_)
      · exact (above other member).imp_right (keeps _ other (List.suffix_refl _))
      · exact keeps path visit (List.suffix_cons visit path) below
      · exact keeps outer other (suffix.trans (List.suffix_cons visit path))

/-- The visits of the path stand in the queue, in the order of the path. -/
theorem Piled.sublist (piled : Piled follows path queue) : path.Sublist queue := by
  induction piled with
  | bottom => exact List.nil_sublist _
  | push _ _ _ ih => exact (ih.cons_cons _).trans (List.sublist_append_right _ _)

/-- Where a visit of the path stands in the queue: the visits further in are above it, the visits
further out are below it, and nothing above it is a visit of the same item. -/
theorem Piled.split (piled : Piled follows (inner ++ visit :: outer) queue)
    (distinct : ((inner ++ visit :: outer).map (·.item)).Nodup) :
    (∃ ahead behind, queue = ahead ++ visit :: behind ∧ visit.item ∉ ahead.map (·.item) ∧
      inner.Sublist ahead ∧ outer.Sublist behind) ∧ follows outer visit := by
  induction inner generalizing queue with
  | nil =>
      cases piled with
      | @push _ _ ahead queue above below piled =>
          refine ⟨⟨ahead, queue, rfl, fun met => ?_, List.nil_sublist _, piled.sublist⟩, below⟩
          obtain ⟨other, member, same⟩ := List.mem_map.mp met
          exact (above other member).1 (same ▸ List.mem_cons_self)
  | cons first inner ih =>
      rw [List.cons_append, List.map_cons, List.nodup_cons] at distinct
      obtain ⟨apart, distinct⟩ := distinct
      cases piled with
      | @push _ _ top queue above below piled =>
          obtain ⟨⟨ahead, behind, rfl, absent, inside, outside⟩, follow⟩ := ih piled distinct
          have onPath : visit.item ∈ (inner ++ visit :: outer).map (·.item) :=
            List.mem_map_of_mem (List.mem_append_right _ List.mem_cons_self)
          refine ⟨⟨top ++ first :: ahead, behind, by simp, ?_, ?_, outside⟩, follow⟩
          · intro met
            rw [List.map_append, List.map_cons, List.mem_append, List.mem_cons] at met
            rcases met with fresh | same | later
            · obtain ⟨other, member, same⟩ := List.mem_map.mp fresh
              exact (above other member).1 (same ▸ List.mem_cons_of_mem _ onPath)
            · exact apart (same ▸ onPath)
            · exact absent later
          · exact (inside.cons_cons first).trans (List.sublist_append_right _ _)

/-! ## Steps -/

/-- The walk comes back to the items on its path, these are the items that are being walked, and
the queue is piled up on the path. -/
structure Tidy (follows : List Visit → Visit → Prop) (walk : Walk) : Prop where
  returns : walk.Returns
  visiting : walk.visiting = walk.path.map (·.item)
  piled : Piled follows walk.path walk.queue

/-- A step takes the visit in front off the queue, or puts visits on top of it that follow the
path. -/
theorem Moves.tidy (moves : Moves resolver walk next) (tidy : Tidy follows walk)
    (keeps : ∀ outer visit, outer <:+ walk.path → follows outer visit → further outer visit)
    (finalizes : ∀ outer item, further outer ⟨item, .finalizer⟩)
    (depends : ∀ visit resolution item, next = walk.descend visit resolution →
      resolver.answer visit.item = .ok resolution → item ∈ resolution.relations.dependencies →
      further (visit :: walk.path) ⟨item, .dependency⟩) :
    Tidy further next := by
  obtain ⟨returns, visiting, piled⟩ := tidy
  have returnsNext := moves.returns returns
  replace piled := piled.imp keeps
  cases moves with
  | drop front shut =>
      have outside := returns.not_mem_of_not_isOpen shut
      rw [front] at piled
      exact ⟨returnsNext, visiting, (piled.tail (visiting ▸ outside)).2⟩
  | setAside front isOpen rejected =>
      have outside := returns.not_mem_of_rejected rejected
      rw [front] at piled
      exact ⟨returnsNext, visiting, (piled.tail (visiting ▸ outside)).2⟩
  | @leave visit rest front isOpen accepted inside =>
      rw [front] at piled
      obtain ⟨outer, split, below⟩ := piled.pop (visiting ▸ inside)
      have left : walk.visiting.erase visit.item = outer.map (·.item) := by
        rw [visiting, split, List.map_cons, List.erase_cons_head]
      have shorter : walk.path.tail = outer := by rw [split, List.tail_cons]
      refine ⟨returnsNext, left.trans (shorter ▸ rfl), ?_⟩
      show Piled further walk.path.tail (_ ++ rest)
      rw [shorter]
      refine below.prepend fun other member => ?_
      obtain ⟨item, listed, rfl⟩ := List.mem_map.mp (List.mem_reverse.mp member)
      refine ⟨?_, finalizes outer item⟩
      rw [← left]
      exact of_decide_eq_true (List.mem_filter.mp listed).2
  | @descend visit rest resolution front isOpen accepted outside answered =>
      have offPath : visit.item ∉ walk.path.map (·.item) := visiting ▸ outside
      rw [front] at piled
      obtain ⟨follow, below⟩ := piled.tail offPath
      refine ⟨returnsNext, by rw [Walk.descend, List.map_cons, ← visiting], ?_⟩
      show Piled further (visit :: walk.path) (_ ++ walk.queue)
      rw [front]
      refine .push (fun other member => ?_) follow below
      obtain ⟨item, listed, rfl⟩ := List.mem_map.mp member
      obtain ⟨dependency, fresh⟩ := List.mem_filter.mp listed
      refine ⟨?_, depends visit resolution item rfl answered dependency⟩
      rw [List.map_cons, ← visiting]
      exact of_decide_eq_true fresh

/-- An item of the path that comes to the front of the queue is the innermost. -/
theorem Tidy.exists_outer (tidy : Tidy follows walk) (front : walk.queue = visit :: rest)
    (inside : visit.item ∈ walk.visiting) : ∃ outer, walk.path = visit :: outer := by
  have piled := tidy.piled
  rw [front] at piled
  obtain ⟨outer, split, _⟩ := piled.pop (tidy.visiting ▸ inside)
  exact ⟨outer, split⟩

/-- A step that meets an item of the path leaves it. -/
theorem Returns.step_eq (returns : walk.Returns) (front : walk.queue = visit :: rest)
    (inside : visit.item ∈ walk.visiting) (resolver : Resolver) :
    walk.step resolver = .going (walk.leave visit rest) := by
  obtain ⟨unfinished, accepted, runnable⟩ := returns.unfinished visit.item inside
  simp [step, front, unfinished, runnable, accepted, inside]

/-! ## Dependencies on the path -/

/-- What the plan knows about how a visit came about: as a dependency of the item at the head of the
path, or it stood in the queue `initial` from the start. -/
def FollowsIn (plan : Plan) (initial : List Visit) (path : List Visit) (visit : Visit) : Prop :=
  visit.link = .dependency →
    (∃ before outer, path = before :: outer ∧
      visit.item ∈ (plan.relations before.item).dependencies) ∨ path = [] ∧ visit ∈ initial

theorem FollowsIn.of_relations_eq {after : Plan} {initial : List Visit}
    (follow : FollowsIn plan initial path visit)
    (same : ∀ other ∈ path, after.relations other.item = plan.relations other.item) :
    FollowsIn after initial path visit := by
  intro linked
  refine (follow linked).imp_left ?_
  rintro ⟨before, outer, rfl, depends⟩
  refine ⟨before, outer, rfl, ?_⟩
  rwa [same before List.mem_cons_self]

/-- Steps of a walk, each with an answer of its own. -/
abbrev Comes : Walk → Walk → Prop :=
  Relation.ReflTransGen fun walk next => ∃ resolver, walk.step resolver = .going next

theorem Comes.tidy {plan : Plan} {initial : List Visit}
    (comes : Comes { plan, queue := initial } walk) :
    Tidy (FollowsIn walk.plan initial) walk := by
  induction comes with
  | refl =>
      refine ⟨⟨nofun, List.nil_subset _, List.nodup_nil⟩, rfl, .bottom fun visit queued _ => ?_⟩
      exact .inr ⟨rfl, queued⟩
  | @tail walk next _ goes ih =>
      obtain ⟨resolver, goes⟩ := goes
      have moves := Moves.of_step goes
      apply moves.tidy ih
      · intro outer visit suffix follow
        refine follow.of_relations_eq fun other member => moves.relations_of_met (.inr ?_)
        rw [ih.visiting]
        exact List.mem_map_of_mem (suffix.subset member)
      · exact fun _ _ => Link.noConfusion
      · rintro visit resolution item rfl answered depends -
        refine .inl ⟨visit, walk.path, rfl, ?_⟩
        rw [show (walk.descend visit resolution).plan.relations visit.item = _ from
          Plan.relations_adopt_inquire _ _ _ _, if_pos rfl]
        exact depends

/-- At every step of a walk, from any queue and with any answers: the items that are being walked are
those of the path, all different and unfinished. The queue holds the visits of the path from the
inside out, each of them being the first one of its item in the queue. When an item of the path is in
front again, its visit is the innermost, and the step leaves it. What came to the path as a
dependency is one of the item before it; only the outermost may have stood so in the queue from the
start. -/
theorem queue_is_stack (plan : Plan) (initial : List Visit) {walk : Walk}
    (comes : Comes { plan, queue := initial } walk) :
    (∀ item, item ∈ walk.visiting ↔ item ∈ walk.path.map (·.item)) ∧
      (walk.path.map (·.item)).Nodup ∧
      (∀ visit ∈ walk.path, (walk.plan.node visit.item).processed = false) ∧
      walk.path.Sublist walk.queue ∧
      (∀ inner visit outer, walk.path = inner ++ visit :: outer →
        (∃ ahead behind, walk.queue = ahead ++ visit :: behind ∧
          visit.item ∉ ahead.map (·.item) ∧ inner.Sublist ahead ∧ outer.Sublist behind) ∧
        (visit.link = .dependency →
          (∃ before rest, outer = before :: rest ∧
            visit.item ∈ (walk.plan.relations before.item).dependencies) ∨
          outer = [] ∧ visit ∈ initial)) ∧
      ∀ visit rest, walk.queue = visit :: rest → visit.item ∈ walk.visiting →
        ∃ outer, walk.path = visit :: outer ∧ (walk.leave visit rest).path = outer ∧
          ∀ resolver, walk.step resolver = .going (walk.leave visit rest) := by
  have tidy := comes.tidy
  have distinct : (walk.path.map (·.item)).Nodup := tidy.visiting ▸ tidy.returns.entered
  refine ⟨fun item => by rw [tidy.visiting], distinct, fun visit onPath => ?_,
    tidy.piled.sublist, fun inner visit outer split => ?_, fun visit rest front inside => ?_⟩
  · have inside := List.mem_map_of_mem (f := (·.item)) onPath
    exact (tidy.returns.unfinished visit.item (tidy.visiting ▸ inside)).1
  · have piled := tidy.piled
    rw [split] at piled distinct
    exact piled.split distinct
  · obtain ⟨outer, split⟩ := tidy.exists_outer front inside
    refine ⟨outer, split, ?_, tidy.returns.step_eq front inside⟩
    rw [leave, split, List.tail_cons]

/-- The walk after some steps, or where it stopped before. -/
def advance (resolver : Resolver) : Nat → Walk → Walk
  | 0, walk => walk
  | steps + 1, walk =>
      match walk.step resolver with
      | .going next => advance resolver steps next
      | .stopped _ => walk

theorem comes_advance (resolver : Resolver) (steps : Nat) (walk : Walk) :
    Comes walk (advance resolver steps walk) := by
  induction steps generalizing walk with
  | zero => exact .refl
  | succ steps ih =>
      unfold advance
      split
      next goes => exact .head ⟨resolver, goes⟩ (ih _)
      next => exact .refl

/-- Packing depends on the licences and on linking. An audit follows the licences, and it depends on
a report. -/
def auditingResolver : Resolver :=
  .ofDeclarations [.dependency "pack" "licences", .dependency "pack" "link",
    .finalizer "licences" "audit", .dependency "audit" "report"]

/-- The request for packing while the report for the audit is walked. -/
def reporting : Walk := advance auditingResolver 5 { plan := {}, queue := [⟨.task "pack", .entry⟩] }

/-- Linking waits in the queue between the audit and the request. The report is the next to be left,
and the audit depends on it. -/
theorem queue_is_stack_reporting :
    reporting.path =
        [⟨.task "report", .dependency⟩, ⟨.task "audit", .finalizer⟩, ⟨.task "pack", .entry⟩] ∧
      reporting.queue =
        [⟨.task "report", .dependency⟩, ⟨.task "audit", .finalizer⟩, ⟨.task "link", .dependency⟩,
          ⟨.task "pack", .entry⟩] ∧
      WorkItem.task "report" ∈ (reporting.plan.relations (.task "audit")).dependencies ∧
      (reporting.path.map (·.item)).Nodup := by
  have comes : Comes { plan := {}, queue := [⟨.task "pack", .entry⟩] } reporting :=
    comes_advance auditingResolver 5 _
  obtain ⟨-, distinct, -, -, places, -⟩ := queue_is_stack {} _ comes
  have path : reporting.path =
    [⟨.task "report", .dependency⟩, ⟨.task "audit", .finalizer⟩, ⟨.task "pack", .entry⟩] := rfl
  obtain ⟨-, depends⟩ := places [] _ _ path
  refine ⟨path, rfl, ?_, distinct⟩
  obtain ⟨before, rest, same, depends⟩ | ⟨none, _⟩ := depends rfl
  · cases same
    exact depends
  · cases none

end TaskPlanner.Walk
