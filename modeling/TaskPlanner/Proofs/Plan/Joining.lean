import TaskPlanner.Proofs.Plan.Batching
import TaskPlanner.Proofs.Plan.Growth

/-! The batches that items join. A request puts items into no batch but its own: whatever is in an
earlier one has been dealt with and hands nothing on. What the request comes to joins its batch at
the latest, unless a finalizer or a soft dependency leads there. -/

set_option autoImplicit false

namespace TaskPlanner

namespace Resolver

/-- An item depends on everything that joins its batch. -/
def AwaitsMembers (resolver : Resolver) : Prop :=
  ∀ item resolution, resolver.answer item = .ok resolution →
    resolution.relations.hardSuccessors ⊆ resolution.relations.dependencies

/-- A way to the item leads through a finalizer, or through a dependency that joins no batch. -/
inductive IsLoose (resolver : Resolver) : WorkItem → Prop where
  | finalizer {source target : WorkItem} {resolution : Resolution} :
      resolver.answer source = .ok resolution → target ∈ resolution.finalizers →
      IsLoose resolver target
  | soft {source target : WorkItem} {resolution : Resolution} :
      resolver.answer source = .ok resolution → target ∈ resolution.relations.dependencies →
      target ∉ resolution.relations.hardSuccessors → IsLoose resolver target
  | dependency {source target : WorkItem} {resolution : Resolution} : IsLoose resolver source →
      resolver.answer source = .ok resolution → target ∈ resolution.relations.dependencies →
      IsLoose resolver target

end Resolver

theorem Node.DueBy.mono {node : Node} {earlier later : Ordinal} (due : node.DueBy earlier)
    (order : earlier ≤ later) : node.DueBy later :=
  due.imp fun _ ⟨present, early⟩ => ⟨present, Fin.le_trans early order⟩

namespace Plan

/-- No visit to the item changes the plan any more. -/
def IsDone (plan : Plan) (item : WorkItem) : Prop :=
  (plan.node item).processed = true ∨ (plan.node item).cannotRun = true

/-- What is in a batch has been dealt with. -/
def KnowsMembers (plan : Plan) : Prop :=
  ∀ item group, (plan.node item).group = some group → plan.IsDone item

/-- No item has changed to a batch other than `ordinal`. -/
def JoinsOnly (ordinal : Ordinal) (before after : Plan) : Prop :=
  ∀ item, (after.node item).group = (before.node item).group ∨
    (after.node item).group = some ordinal

/-- What is indexed is in the batch `ordinal` or in an earlier one, unless it is loose. -/
def IsJoined (plan : Plan) (resolver : Resolver) (ordinal : Ordinal) : Prop :=
  ∀ item ∈ plan.index, resolver.IsLoose item ∨ (plan.node item).DueBy ordinal

theorem SameFindings.isDone {before after : Plan} (same : before.SameFindings after)
    {item : WorkItem} (done : before.IsDone item) : after.IsDone item :=
  done.imp (same.processed item).trans (same.cannotRun item).trans

end Plan

/-! ## Walks -/

namespace Walk

variable {base before : Plan} {resolver : Resolver} {entries : List WorkItem} {ordinal : Ordinal}
  {walk next last : Walk} {item : WorkItem}

theorem Moves.isDone (moves : Moves resolver walk next) (done : walk.plan.IsDone item) :
    next.plan.IsDone item := by
  have grows := moves.growsInto.catalog item
  rcases done with processed | barred
  · exact .inl (grows.keeps processed).2.2.2
  · exact .inr (grows.cannotRun.trans barred)

theorem IsOpen.not_isDone {visit : Visit} (isOpen : walk.IsOpen visit) :
    ¬walk.plan.IsDone visit.item := by
  rintro (processed | barred)
  · rw [isOpen.1] at processed
    cases processed
  · rw [isOpen.2] at barred
    cases barred

theorem Covers.isDone (covers : walk.Covers item) (ended : walk.queue = []) :
    walk.plan.IsDone item := by
  rcases covers with processed | barred | queued
  · exact .inl processed
  · exact .inr barred
  · rw [Walk.queued, ended] at queued
    cases queued

/-- What a walk for the batch `ordinal` has made of the batches of `before`. -/
structure Joins (ordinal : Ordinal) (before : Plan) (walk : Walk) : Prop where
  done : ∀ item, before.IsDone item → walk.plan.IsDone item
  joined : ∀ item, (walk.plan.node item).group = (before.node item).group ∨
    (walk.plan.node item).group = some ordinal ∧ walk.Covers item

/-- An item that is still to be dealt with can only be in the batch of the walk. -/
theorem Joins.group_cases (joins : Joins ordinal before walk) (known : before.KnowsMembers)
    {visit : Visit} (isOpen : walk.IsOpen visit) :
    (walk.plan.node visit.item).group = none ∨
      (walk.plan.node visit.item).group = some ordinal := by
  rcases joins.joined visit.item with same | ⟨joined, _⟩
  · cases present : (before.node visit.item).group with
    | none => exact .inl (same.trans present)
    | some group =>
        exact absurd (joins.done visit.item (known visit.item group present)) isOpen.not_isDone
  · exact .inr joined

theorem Moves.joins (moves : Moves resolver walk next) (awaits : resolver.AwaitsMembers)
    (explores : Explores base resolver entries walk) (known : before.KnowsMembers)
    (joins : Joins ordinal before walk) : Joins ordinal before next := by
  refine ⟨fun item done => moves.isDone (joins.done item done), fun item => ?_⟩
  let property (node : Node) : Prop := node.group = (before.node item).group ∨
    node.group = some ordinal ∧ next.Covers item
  show property (next.plan.node item)
  have holds : property (walk.plan.node item) :=
    (joins.joined item).imp_right fun ⟨joined, covers⟩ => ⟨joined, moves.covers covers⟩
  have explored := moves.explores explores
  cases moves with
  | drop => exact holds
  | setAside => exact Catalog.update_keeps property (fun _ => id) holds
  | leave => exact Catalog.update_keeps property (fun _ => id) holds
  | @descend visit rest resolution front isOpen accepted outside answered =>
      refine Plan.adopt_keeps_joined property (fun _ _ => id) (fun _ _ => id) resolution
        (fun listed node own => ?_) (Plan.inquire_keeps property (fun _ _ => id) holds)
      have covers : (walk.descend visit resolution).Covers item := by
        refine explored.covered.dependencies visit.item (.inr List.mem_cons_self) item ?_
        rw [show (walk.descend visit resolution).plan.relations visit.item = _ from
          Plan.relations_adopt_inquire walk.plan visit.item resolution visit.item, if_pos rfl]
        exact awaits visit.item resolution answered listed
      rw [Plan.group_inquire]
      rcases joins.group_cases known isOpen with none | some
      · rw [none]
        exact own
      · rw [some]
        rcases node.group_join ordinal with same | joined
        · exact own.imp same.trans (And.imp_left same.trans)
        · exact .inr ⟨joined, covers⟩

theorem Reaches.joins (reaches : Reaches resolver walk last) (awaits : resolver.AwaitsMembers)
    (explores : Explores base resolver entries walk) (known : before.KnowsMembers)
    (joins : Joins ordinal before walk) : Joins ordinal before last := by
  induction reaches with
  | refl => exact joins
  | tail earlier moves ih =>
      exact moves.joins awaits (Reaches.explores earlier explores) known ih

/-- Whatever the walk has met is in the batch `ordinal` or in an earlier one, unless it is loose. -/
def IsJoined (walk : Walk) (resolver : Resolver) (ordinal : Ordinal) : Prop :=
  ∀ item, item ∈ walk.plan.index ∨ item ∈ walk.queued →
    resolver.IsLoose item ∨ (walk.plan.node item).DueBy ordinal

theorem Moves.isJoined (moves : Moves resolver walk next)
    (consistent : Consistent base resolver walk) (joined : walk.IsJoined resolver ordinal) :
    next.IsJoined resolver ordinal := by
  intro item met
  have kept : (item ∈ walk.plan.index ∨ item ∈ walk.queued) →
      resolver.IsLoose item ∨ (next.plan.node item).DueBy ordinal :=
    fun before => (joined item before).imp_right moves.dueBy
  cases moves with
  | drop front =>
      refine kept (met.imp_right fun queued => ?_)
      rw [queued_eq front]
      exact List.mem_cons_of_mem _ queued
  | setAside front =>
      refine kept (met.imp_right fun queued => ?_)
      rw [queued_eq front]
      exact List.mem_cons_of_mem _ queued
  | @leave visit rest front isOpen accepted inside =>
      rcases met with indexed | queued
      · rcases ItemSet.mem_insert.mp indexed with old | rfl
        · exact kept (.inl old)
        · exact kept (.inr (consistent.waiting inside))
      · rcases mem_queued_leave.mp queued with ⟨finalizer, _⟩ | behind
        · obtain ⟨resolution, answered, same⟩ := consistent.relations visit.item (.inr inside)
          rw [same] at finalizer
          exact .inl (.finalizer answered finalizer)
        · exact kept (.inr (queued_eq front ▸ List.mem_cons_of_mem _ behind))
  | @descend visit rest resolution front isOpen accepted outside answered =>
      rcases met with indexed | queued
      · exact kept (.inl indexed)
      · rcases mem_queued_descend.mp queued with ⟨dependency, _⟩ | before
        · rcases joined visit.item (.inr (queued_eq front ▸ List.mem_cons_self)) with
            loose | due
          · exact .inl (.dependency loose answered dependency)
          · by_cases hard : item ∈ resolution.relations.hardSuccessors
            · obtain ⟨group, present, early⟩ := due
              refine .inr (Plan.adopt_brings (fun node => node.DueBy ordinal) (fun node => ?_) hard)
              rw [Plan.group_inquire, present]
              exact (node.dueBy_join group).mono early
            · exact .inl (.soft answered dependency hard)
        · exact kept (.inr before)

theorem Reaches.isJoined (reaches : Reaches resolver walk last)
    (explores : Explores base resolver entries walk) (joined : walk.IsJoined resolver ordinal) :
    last.IsJoined resolver ordinal := by
  induction reaches with
  | refl => exact joined
  | tail earlier moves ih => exact moves.isJoined (Reaches.explores earlier explores).consistent ih

end Walk

/-! ## Requests -/

namespace Batches

variable {ordinal : Ordinal} {change : Batch → Batch} {batches : List Batch}

theorem exists_mem_changeIn (ordinal : Ordinal) (change : Batch → Batch) (batches : List Batch) :
    ∃ batch, change batch ∈ changeIn ordinal change batches ∧ batch.ordinal = ordinal := by
  induction batches with
  | nil => exact ⟨{ ordinal }, List.mem_cons_self, rfl⟩
  | cons head rest ih =>
      unfold changeIn
      split
      · exact ⟨{ ordinal }, List.mem_cons_self, rfl⟩
      · split
        next same => exact ⟨head, List.mem_cons_self, same.symm⟩
        next =>
          obtain ⟨batch, member, same⟩ := ih
          exact ⟨batch, List.mem_cons_of_mem _ member, same⟩

theorem changeIn_keeps {batch : Batch} (member : batch ∈ batches) :
    batch ∈ changeIn ordinal change batches ∨ change batch ∈ changeIn ordinal change batches := by
  induction batches with
  | nil => cases member
  | cons head rest ih =>
      unfold changeIn
      split
      · exact .inl (List.mem_cons_of_mem _ member)
      · split
        next =>
          rcases List.mem_cons.mp member with rfl | behind
          · exact .inr List.mem_cons_self
          · exact .inl (List.mem_cons_of_mem _ behind)
        next =>
          rcases List.mem_cons.mp member with rfl | behind
          · exact .inl List.mem_cons_self
          · exact (ih behind).imp (List.mem_cons_of_mem _) (List.mem_cons_of_mem _)

end Batches

namespace Plan

variable {base plan : Plan} {resolver : Resolver} {entries : List WorkItem} {ordinal : Ordinal}
  {submission : Submission} {item : WorkItem}

/-- The item was requested in the batch `ordinal`. -/
def Requests (plan : Plan) (ordinal : Ordinal) (item : WorkItem) : Prop :=
  ∃ batch ∈ plan.batches.batches, batch.ordinal = ordinal ∧ item ∈ batch.entries

theorem requests_request (plan : Plan) (ordinal : Ordinal) (item : WorkItem) :
    (plan.request ordinal item).Requests ordinal item := by
  obtain ⟨batch, member, same⟩ := Batches.exists_mem_changeIn ordinal
    (fun batch => { batch with entries := batch.entries.insert item }) plan.batches.batches
  exact ⟨_, member, same, ItemSet.mem_insert.mpr (.inr rfl)⟩

theorem Requests.request (requests : plan.Requests ordinal item) (later : Ordinal)
    (other : WorkItem) : (plan.request later other).Requests ordinal item := by
  obtain ⟨batch, member, same, requested⟩ := requests
  rcases Batches.changeIn_keeps member with kept | changed
  · exact ⟨batch, kept, same, requested⟩
  · exact ⟨_, changed, same, ItemSet.mem_insert.mpr (.inl requested)⟩

theorem requests_prepare (plan : Plan) (requested : item ∈ submission.requested) :
    (plan.prepare submission).Requests (plan.ordinalFor submission) item := by
  obtain ⟨items, same⟩ := plan.exists_prepare_eq submission
  rw [same]
  generalize (plan.mention items).openBatch (plan.ordinalFor submission) = opened
  obtain ⟨first, rest, split⟩ := List.append_of_mem (WorkItem.mem_arranged.mpr requested)
  rw [split, List.foldl_append, List.foldl_cons]
  exact foldl_request_induction (fun other => other.Requests (plan.ordinalFor submission) item)
    (fun _ other _ requests => requests.request _ other) (requests_request _ _ item)

theorem Requests.of_prepare (requests : (plan.prepare submission).Requests ordinal item)
    (unfinalized : plan.isFinalized = false) (resolver : Resolver) :
    (plan.take resolver submission).plan.Requests ordinal item := by
  unfold Requests
  rw [take_keepsRequests resolver unfinalized submission]
  exact requests

theorem requests_take (unfinalized : plan.isFinalized = false) (resolver : Resolver)
    (requested : item ∈ submission.requested) :
    (plan.take resolver submission).plan.Requests (plan.ordinalFor submission) item :=
  (plan.requests_prepare requested).of_prepare unfinalized resolver

theorem Requests.take (requests : plan.Requests ordinal item)
    (unfinalized : plan.isFinalized = false) (resolver : Resolver) (submission : Submission) :
    (plan.take resolver submission).plan.Requests ordinal item := by
  refine Requests.of_prepare ?_ unfinalized resolver
  exact prepare_induction (fun other => other.Requests ordinal item) requests (fun _ _ => id)
    (fun _ _ => id) fun _ other _ ih => ih.request _ other

/-- A request that names no batch is for the next one, and the next one is for the request behind
it. -/
theorem nextOrdinal_take_of_implicit (unfinalized : plan.isFinalized = false) (resolver : Resolver)
    (implicit : submission.ordinal? = none) :
    (plan.take resolver submission).plan.nextOrdinal = plan.nextOrdinal.next := by
  have ordinal : plan.ordinalFor submission = plan.nextOrdinal := by
    unfold ordinalFor
    rw [implicit]
    rfl
  rw [nextOrdinal_take unfinalized, ordinal]
  split
  · rfl
  next last => exact Fin.le_antisymm plan.nextOrdinal.le_next (Fin.not_lt.mp last)

theorem dueBy_prepare (due : (plan.node item).DueBy ordinal) (submission : Submission) :
    ((plan.prepare submission).node item).DueBy ordinal :=
  due.of_growsInto ((plan.growsInto_prepare submission).catalog item)

theorem dueBy_take (due : (plan.node item).DueBy ordinal) :
    ((plan.take resolver submission).plan.node item).DueBy ordinal :=
  due.of_growsInto ((plan.growsInto_take resolver submission).catalog item)

theorem joins_prepare (plan : Plan) (submission : Submission) :
    Walk.Joins (plan.ordinalFor submission) plan
      { plan := plan.prepare submission, queue := submission.visits } := by
  refine ⟨fun item done => (sameFindings_prepare plan submission).isDone done, fun item => ?_⟩
  have joined : ((plan.prepare submission).node item).group = (plan.node item).group ∨
      ((plan.prepare submission).node item).group = some (plan.ordinalFor submission) ∧
        item ∈ submission.requested := by
    refine prepare_induction (fun other => (other.node item).group = (plan.node item).group ∨
      (other.node item).group = some (plan.ordinalFor submission) ∧ item ∈ submission.requested)
      (.inl rfl) (fun other items ih => ?_) (fun _ _ => id) fun other entry requested ih => ?_
    · rw [node_mention]
      exact ih
    · rw [node_request]
      split
      next same =>
        subst same
        rcases (other.node item).group_join (plan.ordinalFor submission) with same | joined
        · rw [same]
          exact ih
        · exact .inr ⟨joined, requested⟩
      next => exact ih
  exact joined.imp_right fun ⟨group, requested⟩ =>
    ⟨group, .inr (.inr (Submission.mem_map_visits.mpr requested))⟩

theorem Explored.mem_index (explored : Explored base resolver entries plan)
    (done : plan.IsDone item) (admits : base.Admits item) : item ∈ plan.index :=
  Walk.Covers.mem_index explored rfl (done.imp_right .inl) admits

/-- A request changes no batch but its own, and leaves nothing open in any. -/
theorem KnowsMembers.take (known : plan.KnowsMembers) (awaits : resolver.AwaitsMembers)
    (explored : Explored base resolver entries plan)
    (taken : (plan.take resolver submission).result = .ok ()) :
    (plan.take resolver submission).plan.KnowsMembers ∧
      JoinsOnly (plan.ordinalFor submission) plan (plan.take resolver submission).plan := by
  obtain ⟨last, reaches, ended, same⟩ := exists_last_of_take taken
  have joins := reaches.joins awaits (explored.prepare submission) known
    (plan.joins_prepare submission)
  rw [same]
  refine ⟨fun item group present => ?_, fun item => (joins.joined item).imp_right And.left⟩
  rcases joins.joined item with kept | ⟨_, covers⟩
  · exact joins.done item (known item group (kept.symm.trans present))
  · exact covers.isDone ended

theorem IsJoined.take (joined : plan.IsJoined resolver (plan.ordinalFor submission))
    (batched : plan.IsBatched) (unmarked : ∀ item ∈ submission.requested, item.isMarker = false)
    (explored : Explored base resolver entries plan)
    (taken : (plan.take resolver submission).result = .ok ()) :
    (plan.take resolver submission).plan.IsJoined resolver (plan.ordinalFor submission) := by
  obtain ⟨last, reaches, _, same⟩ := exists_last_of_take taken
  have started : Walk.IsJoined { plan := plan.prepare submission, queue := submission.visits }
      resolver (plan.ordinalFor submission) := by
    rintro item (indexed | queued)
    · have listed : item ∈ (plan.prepare submission).index := indexed
      rw [(sameFindings_prepare plan submission).index] at listed
      exact (joined item listed).imp_right fun due => dueBy_prepare due submission
    · obtain ⟨batch, member, ordinal, requested⟩ :=
        plan.requests_prepare (Submission.mem_map_visits.mp queued)
      rw [← ordinal]
      exact .inr ((batched.prepare unmarked).batched.joined batch member item requested)
  rw [same]
  exact fun item indexed =>
    reaches.isJoined (explored.prepare submission) started item (.inl indexed)

end Plan

end TaskPlanner
