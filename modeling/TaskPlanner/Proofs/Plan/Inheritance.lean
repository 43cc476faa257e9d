import TaskPlanner.Proofs.Plan.Foresight
import TaskPlanner.Proofs.Plan.Gathering
import TaskPlanner.Proofs.Plan.Joining
import TaskPlanner.Proofs.Schedule.Leading
import TaskPlanner.Resolver.Rows

/-! Which hard successors join the batch of an item. An item hands its batch on when it is visited
for the first time, and never again. If every way to the item is by a hard dependency then it is in
its batch by then, and batches that come in order find its successors in that batch at the latest.
An item that is found in another way, as a finalizer or by a soft dependency, may be visited while
it is in no batch, and what is found below it stays out of all batches. -/

set_option autoImplicit false

namespace TaskPlanner

/-- An item that was never mentioned has a fresh node. -/
theorem Catalog.node_eq_or_mem (catalog : Catalog) (item : WorkItem) :
    catalog.node item = {} ∨ (item, catalog.node item) ∈ catalog.entries := by
  obtain ⟨entries⟩ := catalog
  unfold node
  dsimp only
  induction entries with
  | nil => exact .inl rfl
  | cons entry rest ih =>
      obtain ⟨other, own⟩ := entry
      unfold nodeIn
      split
      next same => exact .inr (same ▸ List.mem_cons_self)
      next => exact ih.imp_right (List.mem_cons_of_mem _)

namespace Inventory

variable {inventory before after : Inventory} {source target item : WorkItem}

/-- The item was found in a way that hands no batch on to it: it finalizes something, something
depends on it or hands its batch on to it but not both, or it is found below such an item. -/
inductive IsLoose (inventory : Inventory) : WorkItem → Prop where
  | finalizer {source target : WorkItem} : target ∈ (inventory.relations source).finalizers →
      IsLoose inventory target
  | soft {source target : WorkItem} : target ∈ (inventory.relations source).dependencies →
      target ∉ (inventory.relations source).hardSuccessors → IsLoose inventory target
  | unawaited {source target : WorkItem} :
      target ∈ (inventory.relations source).hardSuccessors →
      target ∉ (inventory.relations source).dependencies → IsLoose inventory target
  | dependency {source target : WorkItem} : IsLoose inventory source →
      target ∈ (inventory.relations source).dependencies → IsLoose inventory target

/-- A loose item hands its batch on to loose items only. -/
theorem IsLoose.hardSuccessor (loose : inventory.IsLoose source)
    (hard : target ∈ (inventory.relations source).hardSuccessors) : inventory.IsLoose target := by
  by_cases awaited : target ∈ (inventory.relations source).dependencies
  · exact .dependency loose awaited
  · exact .unawaited hard awaited

/-- Loose items stay so while more and more items get their relations. -/
theorem IsLoose.mono
    (kept : ∀ item, before.relations item = {} ∨ after.relations item = before.relations item)
    (loose : before.IsLoose item) : after.IsLoose item := by
  have unchanged : ∀ (part : Relations → List WorkItem), part {} = [] →
      ∀ {source target : WorkItem}, target ∈ part (before.relations source) →
        after.relations source = before.relations source := by
    intro part empty source target member
    refine (kept source).resolve_left fun none => ?_
    rw [none, empty] at member
    cases member
  induction loose with
  | finalizer member =>
      have same := unchanged (·.finalizers) rfl member
      exact .finalizer (same ▸ member)
  | soft member absent =>
      have same := unchanged (·.dependencies) rfl member
      exact .soft (same ▸ member) (same ▸ absent)
  | unawaited member absent =>
      have same := unchanged (·.hardSuccessors) rfl member
      exact .unawaited (same ▸ member) (same ▸ absent)
  | dependency _ member ih =>
      have same := unchanged (·.dependencies) rfl member
      exact .dependency ih (same ▸ member)

theorem isLoose_congr (same : ∀ item, after.relations item = before.relations item) :
    after.IsLoose item ↔ before.IsLoose item :=
  ⟨.mono fun other => .inr (same other).symm, .mono fun other => .inr (same other)⟩

/-- Items are not loose if they finalize nothing and everything that depends on one of them is also
one of them and hands its batch on to it. -/
theorem not_isLoose_of_entries (tight : List WorkItem)
    (closed : ∀ entry ∈ inventory.catalog.entries, ∀ target ∈ tight,
      target ∉ entry.2.relations.finalizers ∧
        (target ∈ entry.2.relations.dependencies ↔ target ∈ entry.2.relations.hardSuccessors) ∧
        (target ∈ entry.2.relations.dependencies → entry.1 ∈ tight)) :
    ∀ item ∈ tight, ¬inventory.IsLoose item := by
  intro item member loose
  have known : ∀ source, ∀ target ∈ tight,
      target ∉ (inventory.relations source).finalizers ∧
        (target ∈ (inventory.relations source).dependencies ↔
          target ∈ (inventory.relations source).hardSuccessors) ∧
        (target ∈ (inventory.relations source).dependencies → source ∈ tight) := by
    intro source target member
    rcases inventory.catalog.node_eq_or_mem source with fresh | listed
    · rw [show inventory.relations source = {} from congrArg (·.relations) fresh]
      exact ⟨List.not_mem_nil, .rfl, nofun⟩
    · exact closed (source, inventory.catalog.node source) listed target member
  induction loose with
  | @finalizer source target finalizer => exact (known source target member).1 finalizer
  | @soft source target dependency soft =>
      exact soft ((known source target member).2.1.mp dependency)
  | @unawaited source target hard unawaited =>
      exact unawaited ((known source target member).2.1.mpr hard)
  | @dependency source target _ dependency ih =>
      exact ih ((known source target member).2.2 dependency)

/-- The markers that are put into the index get their nodes, and all other nodes are kept. -/
theorem node_withMarkers_cases (inventory : Inventory) (item : WorkItem) :
    inventory.withMarkers.node item = inventory.node item ∨
      ∃ ordinal, item = .marker ordinal ∧
        inventory.withMarkers.node item = (inventory.node item).mark ordinal := by
  cases item with
  | marker ordinal =>
      rw [node_marker_withMarkers]
      split
      · exact .inr ⟨ordinal, rfl, rfl⟩
      · exact .inl rfl
  | task => exact .inl (inventory.node_withMarkers_of_isPublic rfl)
  | delegated => exact .inl (inventory.node_withMarkers_of_isPublic rfl)

end Inventory

theorem Relations.ne_empty_of_hardSuccessor {relations : Relations} {item : WorkItem}
    (hard : item ∈ relations.hardSuccessors) : relations ≠ {} := by
  rintro rfl
  cases hard

/-! ## Walks -/

namespace Walk

variable {resolver : Resolver} {ordinal group : Ordinal} {walk next last : Walk} {visit : Visit}
  {rest : List Visit} {item : WorkItem}

theorem covers_iff : walk.Covers item ↔ walk.plan.IsDone item ∨ item ∈ walk.queued :=
  or_assoc.symm

/-- How a walk for the batch `ordinal` hands batches on. Items that are not loose are in a batch
when they are visited, and it is that of the walk. -/
structure HandsOn (ordinal : Ordinal) (walk : Walk) : Prop where
  returns : walk.Returns
  related : ∀ item, walk.plan.relations item = {} ∨ walk.plan.IsDone item ∨ item ∈ walk.visiting
  grouped : ∀ item, walk.plan.relations item ≠ {} ∨ item ∈ walk.queued →
    walk.plan.IsLoose item ∨ (walk.plan.node item).DueBy ordinal
  settled : ∀ item group, ¬walk.plan.IsLoose item → (walk.plan.node item).group = some group →
    walk.plan.IsDone item ∨ group = ordinal ∧ item ∈ walk.queued
  handed : ∀ item group, ¬walk.plan.IsLoose item → (walk.plan.node item).group = some group →
    ∀ other ∈ (walk.plan.relations item).hardSuccessors, (walk.plan.node other).DueBy group

/-- Only items without relations get any. -/
theorem HandsOn.relations_cases (handsOn : walk.HandsOn ordinal) (moves : Moves resolver walk next)
    (item : WorkItem) : walk.plan.relations item = {} ∨
      next.plan.relations item = walk.plan.relations item := by
  cases moves with
  | drop => exact .inr rfl
  | setAside => exact .inr (Plan.relations_setAside _ _ _)
  | leave => exact .inr (Plan.relations_enroll _ _ _)
  | @descend visit rest resolution front isOpen accepted outside answered =>
      by_cases same : item = visit.item
      · subst same
        rcases handsOn.related visit.item with none | done | inside
        · exact .inl none
        · exact absurd done isOpen.not_isDone
        · exact absurd inside outside
      · exact .inr ((Plan.relations_adopt_inquire _ _ _ _).trans (if_neg same))

theorem HandsOn.isLoose (handsOn : walk.HandsOn ordinal) (moves : Moves resolver walk next)
    (loose : walk.plan.IsLoose item) : next.plan.IsLoose item :=
  loose.mono (handsOn.relations_cases moves)

/-- An open item in front is in the batch of the walk, unless it is loose. -/
theorem HandsOn.group_eq (handsOn : walk.HandsOn ordinal) (front : walk.queue = visit :: rest)
    (isOpen : walk.IsOpen visit) (tight : ¬walk.plan.IsLoose visit.item) :
    (walk.plan.node visit.item).group = some ordinal := by
  have queued : visit.item ∈ walk.queued := queued_eq front ▸ List.mem_cons_self
  obtain ⟨group, present, _⟩ := (handsOn.grouped visit.item (.inr queued)).resolve_left tight
  rcases handsOn.settled visit.item group tight present with done | ⟨rfl, _⟩
  · exact absurd done isOpen.not_isDone
  · exact present

/-- Items that are not loose change to the batch of the walk only, and a visit to them is still to
come then. -/
theorem HandsOn.group_cases (handsOn : walk.HandsOn ordinal) (moves : Moves resolver walk next)
    (tight : ¬next.plan.IsLoose item) :
    (next.plan.node item).group = (walk.plan.node item).group ∨
      (next.plan.node item).group = some ordinal ∧ next.Covers item := by
  have loosened : ∀ {other}, walk.plan.IsLoose other → next.plan.IsLoose other :=
    handsOn.isLoose moves
  have returns := moves.returns handsOn.returns
  let property (node : Node) : Prop := node.group = (walk.plan.node item).group ∨
    node.group = some ordinal ∧ next.Covers item
  show property (next.plan.node item)
  have holds : property (walk.plan.node item) := .inl rfl
  cases moves with
  | drop => exact holds
  | setAside => exact Catalog.update_keeps property (fun _ => id) holds
  | leave => exact Catalog.update_keeps property (fun _ => id) holds
  | @descend visit rest resolution front isOpen accepted outside answered =>
      refine Plan.adopt_keeps_joined property (fun _ _ => id) (fun _ _ => id) resolution
        (fun listed node own => ?_) (Plan.inquire_keeps property (fun _ _ => id) holds)
      have relations : (walk.descend visit resolution).plan.relations visit.item =
          resolution.relations := (Plan.relations_adopt_inquire _ _ _ _).trans (if_pos rfl)
      rw [← relations] at listed
      have group := handsOn.group_eq front isOpen
        fun loose => tight ((loosened loose).hardSuccessor listed)
      rw [Plan.group_inquire, group]
      rcases node.group_join ordinal with same | joined
      · exact own.imp same.trans (And.imp_left same.trans)
      · refine .inr ⟨joined, .inr (.inr (returns.mem_queued ?_))⟩
        by_contra absent
        rw [← relations] at absent
        exact tight (.unawaited listed absent)

theorem Moves.related (moves : Moves resolver walk next) (handsOn : walk.HandsOn ordinal)
    (item : WorkItem) :
    next.plan.relations item = {} ∨ next.plan.IsDone item ∨ item ∈ next.visiting := by
  have before := handsOn.related item
  have done : walk.plan.IsDone item → next.plan.IsDone item := moves.isDone
  cases moves with
  | drop => exact before
  | setAside =>
      rw [Plan.relations_setAside]
      exact before.imp_right (.imp_left done)
  | @leave visit rest =>
      rw [show (walk.leave visit rest).plan.relations item = _ from Plan.relations_enroll _ _ _]
      rcases before with none | finished | inside
      · exact .inl none
      · exact .inr (.inl (done finished))
      · by_cases same : item = visit.item
        · refine .inr (.inl (.inl ((Plan.processed_enroll _ _ _).trans ?_)))
          rw [decide_eq_true same, Bool.true_or]
        · exact .inr (.inr ((List.mem_erase_of_ne same).mpr inside))
  | @descend visit rest resolution =>
      rw [show (walk.descend visit resolution).plan.relations item = _ from
        Plan.relations_adopt_inquire _ _ _ _]
      split
      next same => exact .inr (.inr (same ▸ List.mem_cons_self))
      next => exact before.imp_right (.imp done (List.mem_cons_of_mem _))

theorem Moves.grouped (moves : Moves resolver walk next) (handsOn : walk.HandsOn ordinal)
    (met : next.plan.relations item ≠ {} ∨ item ∈ next.queued) :
    next.plan.IsLoose item ∨ (next.plan.node item).DueBy ordinal := by
  have kept : walk.plan.relations item ≠ {} ∨ item ∈ walk.queued →
      next.plan.IsLoose item ∨ (next.plan.node item).DueBy ordinal :=
    fun before => (handsOn.grouped item before).imp (handsOn.isLoose moves) moves.dueBy
  have loosened : ∀ {other}, walk.plan.IsLoose other → next.plan.IsLoose other :=
    handsOn.isLoose moves
  cases moves with
  | drop front =>
      refine kept (met.imp_right fun queued => ?_)
      rw [queued_eq front]
      exact List.mem_cons_of_mem _ queued
  | setAside front =>
      refine kept (met.imp (fun related => ?_) fun queued => ?_)
      · rw [Plan.relations_setAside] at related
        exact related
      · rw [queued_eq front]
        exact List.mem_cons_of_mem _ queued
  | @leave visit rest front =>
      have relations : ∀ other, (walk.leave visit rest).plan.relations other =
          walk.plan.relations other := Plan.relations_enroll _ _
      rcases met with related | queued
      · rw [relations] at related
        exact kept (.inl related)
      · rcases mem_queued_leave.mp queued with ⟨finalizer, _⟩ | behind
        · rw [← relations] at finalizer
          exact .inl (.finalizer finalizer)
        · exact kept (.inr (queued_eq front ▸ List.mem_cons_of_mem _ behind))
  | @descend visit rest resolution front =>
      have relations : ∀ other, (walk.descend visit resolution).plan.relations other =
          if other = visit.item then resolution.relations else walk.plan.relations other :=
        Plan.relations_adopt_inquire _ _ _
      have queuedFront : visit.item ∈ walk.queued := queued_eq front ▸ List.mem_cons_self
      rcases met with related | queued
      · rw [relations] at related
        split at related
        next same => exact kept (.inr (same ▸ queuedFront))
        next => exact kept (.inl related)
      · rcases mem_queued_descend.mp queued with ⟨dependency, _⟩ | before
        · have own := (relations visit.item).trans (if_pos rfl)
          rw [← own] at dependency
          rcases handsOn.grouped visit.item (.inr queuedFront) with loose | due
          · exact .inl (.dependency (loosened loose) dependency)
          · by_cases hard : item ∈ resolution.relations.hardSuccessors
            · obtain ⟨group, present, early⟩ := due
              refine .inr (Plan.adopt_brings (fun node => node.DueBy ordinal) (fun node => ?_) hard)
              rw [Plan.group_inquire, present]
              exact (node.dueBy_join group).mono early
            · rw [← own] at hard
              exact .inl (.soft dependency hard)
        · exact kept (.inr before)

theorem Moves.settled (moves : Moves resolver walk next) (handsOn : walk.HandsOn ordinal)
    (tight : ¬next.plan.IsLoose item) (present : (next.plan.node item).group = some group) :
    next.plan.IsDone item ∨ group = ordinal ∧ item ∈ next.queued := by
  rcases handsOn.group_cases moves tight with same | ⟨joined, covers⟩
  · rw [same] at present
    have before : ¬walk.plan.IsLoose item := fun loose => tight (handsOn.isLoose moves loose)
    rcases handsOn.settled item group before present with done | ⟨rfl, queued⟩
    · exact .inl (moves.isDone done)
    · have covers := moves.covers (.inr (.inr queued))
      exact (covers_iff.mp covers).imp_right fun queued => ⟨rfl, queued⟩
  · cases joined.symm.trans present
    exact (covers_iff.mp covers).imp_right fun queued => ⟨rfl, queued⟩

theorem Moves.handed (moves : Moves resolver walk next) (handsOn : walk.HandsOn ordinal)
    (tight : ¬next.plan.IsLoose item) (present : (next.plan.node item).group = some group)
    {other : WorkItem} (hard : other ∈ (next.plan.relations item).hardSuccessors) :
    (next.plan.node other).DueBy group := by
  have before : ¬walk.plan.IsLoose item := fun loose => tight (handsOn.isLoose moves loose)
  have joins := handsOn.group_cases moves tight
  -- An item that had relations has handed its batch on, and changes at most to a later one.
  have kept : next.plan.relations item = walk.plan.relations item →
      (next.plan.node other).DueBy group := by
    intro same
    rw [same] at hard
    obtain ⟨own, found, early⟩ := (handsOn.grouped item
      (.inl (Relations.ne_empty_of_hardSuccessor hard))).resolve_left before
    refine (moves.dueBy (handsOn.handed item own before found other hard)).mono ?_
    rcases joins with same | ⟨joined, _⟩
    · rw [same, found] at present
      cases present
      exact Fin.le_refl _
    · cases joined.symm.trans present
      exact early
  cases moves with
  | drop => exact kept rfl
  | setAside => exact kept (Plan.relations_setAside _ _ _)
  | leave => exact kept (Plan.relations_enroll _ _ _)
  | @descend visit rest resolution front isOpen =>
      have relations : (walk.descend visit resolution).plan.relations item =
          if item = visit.item then resolution.relations else walk.plan.relations item :=
        Plan.relations_adopt_inquire _ _ _ _
      by_cases same : item = visit.item
      · subst same
        rw [relations, if_pos rfl] at hard
        have own := handsOn.group_eq front isOpen before
        have joined : group = ordinal := by
          rcases joins with same | ⟨joined, _⟩
          · exact Option.some.inj (present.symm.trans (same.trans own))
          · exact Option.some.inj (present.symm.trans joined)
        rw [joined]
        refine Plan.adopt_brings (fun node => node.DueBy ordinal) (fun node => ?_) hard
        rw [Plan.group_inquire, own]
        exact node.dueBy_join ordinal
      · exact kept (relations.trans (if_neg same))

theorem Moves.handsOn (moves : Moves resolver walk next) (handsOn : walk.HandsOn ordinal) :
    next.HandsOn ordinal where
  returns := moves.returns handsOn.returns
  related := moves.related handsOn
  grouped _ := moves.grouped handsOn
  settled _ _ := moves.settled handsOn
  handed _ _ tight present _ := moves.handed handsOn tight present

theorem Reaches.handsOn (reaches : Reaches resolver walk last) (handsOn : walk.HandsOn ordinal) :
    last.HandsOn ordinal := by
  induction reaches with
  | refl => exact handsOn
  | tail _ moves ih => exact moves.handsOn ih

end Walk

/-! ## Plans -/

namespace Plan

variable {plan : Plan} {resolver : Resolver} {submission : Submission} {ordinal : Ordinal}
  {item : WorkItem}

/-- How a plan has handed batches on between two requests. -/
structure HandsOn (plan : Plan) : Prop where
  related : ∀ item, plan.relations item = {} ∨ plan.IsDone item
  grouped : ∀ item, plan.relations item ≠ {} →
    plan.IsLoose item ∨ ∃ group, (plan.node item).group = some group
  settled : ∀ item group, ¬plan.IsLoose item → (plan.node item).group = some group →
    plan.IsDone item
  handed : ∀ item group, ¬plan.IsLoose item → (plan.node item).group = some group →
    ∀ other ∈ (plan.relations item).hardSuccessors, (plan.node other).DueBy group

theorem HandsOn.of_toInventory_eq {before after : Plan} (handsOn : before.HandsOn)
    (same : after.toInventory = before.toInventory) : after.HandsOn := by
  obtain ⟨related, grouped, settled, handed⟩ := handsOn
  unfold IsDone at related settled
  rw [← same] at related grouped settled handed
  exact ⟨related, grouped, settled, handed⟩

theorem IsFresh.handsOn (fresh : plan.IsFresh) : plan.HandsOn where
  related item := .inl (fresh.clean item).relations
  grouped item related := absurd (fresh.clean item).relations related
  settled item group _ present := by
    rw [(fresh.clean item).group] at present
    cases present
  handed item group _ present := by
    rw [(fresh.clean item).group] at present
    cases present

theorem HandsOn.prepare (handsOn : plan.HandsOn) (batched : plan.IsBatched)
    (grouped : plan.IsGrouped)
    (last : ∀ ordinal ∈ plan.batches.ordinals, ordinal ≤ plan.ordinalFor submission)
    (unmarked : ∀ item ∈ submission.requested, item.isMarker = false) :
    Walk.HandsOn (plan.ordinalFor submission)
      { plan := plan.prepare submission, queue := submission.visits } := by
  have findings := sameFindings_prepare plan submission
  have loose : ∀ item, (plan.prepare submission).IsLoose item ↔ plan.IsLoose item :=
    fun _ => Inventory.isLoose_congr findings.relations
  have joins := plan.joins_prepare submission
  refine ⟨⟨nofun, nofun, .nil⟩, fun item => ?_, fun item met => ?_,
    fun item group tight present => ?_, fun item group tight present other hard => ?_⟩
  · rw [findings.relations]
    exact (handsOn.related item).imp_right fun done => .inl (joins.done item done)
  · rw [findings.relations] at met
    rw [loose]
    rcases met with related | queued
    · refine (handsOn.grouped item related).imp_right fun ⟨group, present⟩ => ?_
      exact dueBy_prepare ⟨group, present, last group (grouped item group present)⟩ _
    · obtain ⟨batch, member, ordinal, requested⟩ :=
        plan.requests_prepare (Submission.mem_map_visits.mp queued)
      rw [← ordinal]
      exact .inr ((batched.prepare unmarked).batched.joined batch member item requested)
  · rw [loose] at tight
    rcases joins.joined item with same | ⟨joined, covers⟩
    · exact .inl (joins.done item (handsOn.settled item group tight (same ▸ present)))
    · cases joined.symm.trans present
      exact (Walk.covers_iff.mp covers).imp_right fun queued => ⟨rfl, queued⟩
  · rw [loose] at tight
    rw [findings.relations] at hard
    obtain ⟨own, found⟩ :=
      (handsOn.grouped item (Relations.ne_empty_of_hardSuccessor hard)).resolve_left tight
    refine (dueBy_prepare (handsOn.handed item own tight found other hard) submission).mono ?_
    rcases joins.joined item with same | ⟨joined, _⟩
    · cases (same.trans found).symm.trans present
      exact Fin.le_refl _
    · cases joined.symm.trans present
      exact last own (grouped item own found)

theorem HandsOn.take (handsOn : plan.HandsOn) (gathered : plan.IsGathered)
    (last : ∀ ordinal ∈ plan.batches.ordinals, ordinal ≤ plan.ordinalFor submission)
    (unmarked : ∀ item ∈ submission.requested, item.isMarker = false)
    (taken : (plan.take resolver submission).result = .ok ()) :
    (plan.take resolver submission).plan.HandsOn := by
  obtain ⟨walk, reaches, ended, same⟩ := exists_last_of_take taken
  obtain ⟨returns, related, grouped, settled, handed⟩ :=
    reaches.handsOn (handsOn.prepare gathered.batched gathered.grouped last unmarked)
  have absent : ∀ item, item ∉ walk.queued := by simp [Walk.queued, ended]
  rw [same]
  refine ⟨fun item => ?_, fun item found => ?_, fun item group tight present => ?_, handed⟩
  · rcases related item with none | done | inside
    · exact .inl none
    · exact .inr done
    · exact absurd (returns.waiting inside) (absent item)
  · rcases grouped item (.inl found) with loose | ⟨group, present, _⟩
    · exact .inl loose
    · exact .inr ⟨group, present⟩
  · rcases settled item group tight present with done | ⟨_, queued⟩
    · exact done
    · exact absurd queued (absent item)

theorem HandsOn.marked (handsOn : plan.HandsOn) (tidy : plan.IsTidy) :
    ({ plan with toInventory := plan.toInventory.withMarkers } : Plan).HandsOn := by
  have marks := plan.toInventory.marks_withMarkers
  have loose : ∀ item, plan.toInventory.withMarkers.IsLoose item ↔ plan.IsLoose item :=
    fun _ => Inventory.isLoose_congr marks.relations
  have nodes := plan.toInventory.node_withMarkers_cases
  refine ⟨fun item => ?_, fun item related => ?_, fun item group tight present => ?_,
    fun item group tight present other hard => ?_⟩
  · refine (handsOn.related item).imp (marks.relations item).trans fun done => ?_
    rcases nodes item with same | ⟨ordinal, rfl, same⟩
    · unfold IsDone
      rw [same]
      exact done
    · exact .inl (congrArg (·.processed) same)
  · rw [show plan.toInventory.withMarkers.relations item = _ from marks.relations item] at related
    rw [loose]
    refine (handsOn.grouped item related).imp_right fun ⟨group, present⟩ => ?_
    obtain ⟨found, lookup, _⟩ := marks.dueBy item group ⟨group, present, Fin.le_refl _⟩
    exact ⟨found, lookup⟩
  · rw [loose] at tight
    rcases nodes item with same | ⟨ordinal, rfl, same⟩
    · unfold IsDone
      rw [same] at present ⊢
      exact handsOn.settled item group tight present
    · exact .inl (congrArg (·.processed) same)
  · rw [loose] at tight
    rw [show plan.toInventory.withMarkers.relations item = _ from marks.relations item] at hard
    refine marks.dueBy other group (handsOn.handed item group tight ?_ other hard)
    rcases nodes item with same | ⟨ordinal, rfl, _⟩
    · rw [← same]
      exact present
    · exact absurd (tidy.relations_marker ordinal) (Relations.ne_empty_of_hardSuccessor hard)

theorem HandsOn.determine (handsOn : plan.HandsOn) (tidy : plan.IsTidy) :
    plan.determine.plan.HandsOn := by
  have marked := handsOn.marked tidy
  have determined := plan.determines
  generalize plan.determine = attempt at determined ⊢
  cases determined with
  | settled => exact handsOn.of_toInventory_eq rfl
  | failed => exact marked
  | scheduled => exact marked.of_toInventory_eq rfl

/-! ## Batches in order -/

/-- The plans that successful requests make of a fresh one if no request is for a batch in front of
one that was opened before. -/
inductive Ascends : Plan → Prop where
  | fresh {plan : Plan} : plan.IsFresh → plan.schedule? = none → Ascends plan
  | accept {plan : Plan} (accepts : String → Bool) : Ascends plan → Ascends { plan with accepts }
  | take {plan : Plan} {resolver : Resolver} {submission : Submission} : Ascends plan →
      (∀ ordinal ∈ plan.batches.ordinals, ordinal ≤ plan.ordinalFor submission) →
      resolver.AvoidsMarkers → (∀ item ∈ submission.requested, item.isMarker = false) →
      (plan.take resolver submission).result = .ok () →
      Ascends (plan.take resolver submission).plan
  | determine {plan : Plan} : Ascends plan → Ascends plan.determine.plan

theorem Ascends.gathered (ascends : plan.Ascends) : plan.Gathered := by
  induction ascends with
  | fresh fresh unscheduled => exact .fresh fresh unscheduled
  | accept accepts _ ih => exact .accept accepts ih
  | take _ _ avoids unmarked taken ih => exact .take ih avoids unmarked taken
  | determine _ ih => exact .determine ih

theorem Ascends.handsOn (ascends : plan.Ascends) : plan.HandsOn := by
  induction ascends with
  | fresh fresh _ => exact fresh.handsOn
  | accept accepts _ ih => exact ih.of_toInventory_eq rfl
  | take before last _ unmarked taken ih =>
      exact ih.take before.gathered.isGathered last unmarked taken
  | determine before ih => exact ih.determine before.gathered.isGathered.toIsTidy

/-- The item is requested in the batch, or an item that is handed the batch hands it on to this one,
which is not loose. -/
inductive Inherits (plan : Plan) (ordinal : Ordinal) : WorkItem → Prop where
  | requested {item : WorkItem} : plan.Requests ordinal item → Inherits plan ordinal item
  | successor {source target : WorkItem} : Inherits plan ordinal source →
      target ∈ (plan.relations source).hardSuccessors → ¬plan.IsLoose target →
      Inherits plan ordinal target

theorem HandsOn.dueBy (handsOn : plan.HandsOn) (batched : plan.IsBatched)
    (inherits : plan.Inherits ordinal item) : (plan.node item).DueBy ordinal := by
  induction inherits with
  | requested requests =>
      obtain ⟨batch, member, rfl, requested⟩ := requests
      exact batched.batched.joined batch member _ requested
  | successor _ hard tight ih =>
      obtain ⟨group, present, early⟩ := ih
      have tightSource := fun loose : plan.IsLoose _ => tight (loose.hardSuccessor hard)
      exact (handsOn.handed _ group tightSource present _ hard).mono early

/-- What inherits a batch and is needed by no earlier one is held back by its marker: all that
earlier batches request leads to it and stands in front of it. An item that inherits no batch is led
to all the same through dependencies and finalizers, or through the marker in front of something
that it waits for, but in no other way. -/
theorem inherits_leads (ascends : plan.Ascends) {schedule : Schedule}
    (determined : plan.determine.result = .ok schedule) {earlier later : List ScheduledNode}
    {node : ScheduledNode} (split : schedule.nodes = earlier ++ node :: later)
    (unmarked : node.isMarker = false)
    (late : ∀ group, node.group = some group → ordinal ≤ group)
    (unneeded : ¬plan.determine.plan.toInventory.IsNeededBefore ordinal node.item) {batch : Batch}
    (listed : batch ∈ plan.determine.plan.batches.batches) (order : batch.ordinal < ordinal)
    {entry : WorkItem} (requested : entry ∈ batch.entries)
    (indexed : entry ∈ plan.determine.plan.index) :
    (plan.determine.plan.Inherits ordinal node.item →
      node.group = some ordinal ∧ (.marker ordinal, .ordinal) ∈ node.predecessors ∧
        schedule.Leads entry node.item ∧ entry ∈ earlier.map (·.item)) ∧
    (schedule.Leads entry node.item ↔
      plan.determine.plan.toInventory.relationGraph.Reaches entry node.item ∨
        ∃ other held, plan.determine.plan.toInventory.IsDue other held ∧
          (held = node.item ∨
            plan.determine.plan.toInventory.relationGraph.Reaches held node.item) ∧
          schedule.Leads entry (.marker other)) := by
  have gathered := ascends.gathered
  have member : node ∈ schedule.nodes := by simp [split]
  obtain ⟨orderly, scheduled⟩ := gathered.isOrderly_of_mem determined member
  obtain ⟨present, same⟩ := Inventory.node_of_schedule scheduled member
  refine ⟨fun inherits => ?_, orderly.leads_iff scheduled member unmarked
    (orderly.apart.entries batch listed entry requested)⟩
  have own : (plan.determine.plan.node node.item).group = node.group :=
    (congrArg ScheduledNode.group same).symm
  obtain ⟨group, joined, early⟩ := ascends.determine.handsOn.dueBy
    gathered.determine.isGathered.batched inherits
  have exactly : group = ordinal :=
    Fin.le_antisymm early (late group (own.symm.trans joined))
  rw [exactly] at joined
  have due := Inventory.isDue_iff.mpr ⟨joined, unneeded⟩
  obtain ⟨_, waits⟩ := orderly.markerChain_schedule scheduled member unmarked due listed order
    requested indexed
  have leads : schedule.Leads entry node.item := (orderly.leads_iff_reaches scheduled).mpr
    (orderly.reaches due (.inl rfl) present unmarked listed order requested indexed)
  exact ⟨own.symm.trans joined, waits, leads,
    leads.mem_earlier (Inventory.wellFormed_schedule scheduled) split⟩

/-! ## An example -/

def reportResolver : Resolver :=
  .ofDeclarations
    [.finalizer "compile" "report", .dependency "report" "tools", .dependency "package" "archive"]

/-- A report on the first batch, which needs tools, is requested in the second one, and so is a
package with an archive. -/
def reportPlan : Plan :=
  ((examplePlan.take reportResolver (.tasks ["compile"] none)).plan.take reportResolver
    (.tasks ["package", "report"] none)).plan

def reportSchedule : Schedule :=
  .ofNodes
    [{ item := .task "compile", group := some (.ofPosition 0), isEntry := true },
      { item := .marker (.ofPosition 1), group := some (.ofPosition 1),
        predecessors := [(.task "compile", .ordinal)] },
      { item := .task "tools" },
      { item := .task "report", group := some (.ofPosition 1),
        predecessors := [(.task "compile", .finalizes), (.task "tools", .dependency),
          (.marker (.ofPosition 1), .ordinal)],
        finalizes := [.task "compile"], isEntry := true },
      { item := .task "archive", group := some (.ofPosition 1),
        predecessors := [(.marker (.ofPosition 1), .ordinal)] },
      { item := .task "package", group := some (.ofPosition 1),
        predecessors := [(.task "archive", .dependency), (.marker (.ofPosition 1), .ordinal)],
        isEntry := true }]
    []

theorem determine_reportPlan : reportPlan.determine.result = .ok reportSchedule := rfl

theorem ascends_reportPlan : reportPlan.Ascends := by
  have avoids : reportResolver.AvoidsMarkers := .of_mentionable (by decide)
  have fresh : examplePlan.Ascends := .fresh (isFresh_new _ _) rfl
  have first := fresh.take nofun avoids (Submission.tasks_unmarked ["compile"] none) rfl
  have ordinals :
      (examplePlan.take reportResolver (.tasks ["compile"] none)).plan.batches.ordinals =
        [.ofPosition 0] := rfl
  refine first.take ?_ avoids (Submission.tasks_unmarked ["package", "report"] none) rfl
  rw [ordinals]
  exact List.forall_mem_singleton.mpr (by decide)

/-- The report on the first batch is in the second one, and nothing leads into the first. -/
theorem not_isNeededBefore_reportPlan (item : WorkItem) :
    ¬reportPlan.determine.plan.toInventory.IsNeededBefore (.ofPosition 1) item :=
  Inventory.not_isNeededBefore_of_edges (by decide)

theorem inherits_archive :
    reportPlan.determine.plan.Inherits (.ofPosition 1) (.task "archive") := by
  have requested : reportPlan.determine.plan.Inherits (.ofPosition 1) (.task "package") :=
    .requested ⟨_, List.mem_cons_of_mem _ List.mem_cons_self, rfl, by decide⟩
  exact .successor requested (by decide)
    (Inventory.not_isLoose_of_entries [.task "package", .task "archive"] (by decide) _ (by decide))

theorem inherits_leads_archive :
    reportPlan.determine.result = .ok reportSchedule ∧
      ¬reportPlan.determine.plan.toInventory.IsNeededBefore (.ofPosition 1) (.task "archive") ∧
      reportPlan.determine.plan.Inherits (.ofPosition 1) (.task "archive") ∧
      reportSchedule.Leads (.task "compile") (.task "archive") ∧
      .task "compile" ∈ (reportSchedule.nodes.take 4).map (·.item) := by
  have split : reportSchedule.nodes =
      reportSchedule.nodes.take 4 ++ reportSchedule.nodes[4] :: reportSchedule.nodes.drop 5 := rfl
  have late : ∀ group, reportSchedule.nodes[4].group = some group → .ofPosition 1 ≤ group := by
    rintro _ ⟨rfl⟩
    exact Fin.le_refl _
  have listed : ⟨.ofPosition 0, { items := [.task "compile"] }⟩ ∈
      reportPlan.determine.plan.batches.batches := List.mem_cons_self
  obtain ⟨joins, _⟩ := inherits_leads ascends_reportPlan determine_reportPlan split rfl late
    (not_isNeededBefore_reportPlan _) listed (by decide) List.mem_cons_self (by decide)
  obtain ⟨_, _, leads, front⟩ := joins inherits_archive
  exact ⟨determine_reportPlan, not_isNeededBefore_reportPlan _, inherits_archive, leads, front⟩

/-- The tools are a hard successor of the report, which the second batch requests, and no earlier
batch needs them; but the walk came to the report as a finalizer and found them in no batch. What
the first batch requests does not lead to them. -/
theorem not_leads_tools :
    reportPlan.Ascends ∧ reportPlan.determine.result = .ok reportSchedule ∧
      reportPlan.determine.plan.Requests (.ofPosition 1) (.task "report") ∧
      .task "tools" ∈ (reportPlan.determine.plan.relations (.task "report")).hardSuccessors ∧
      (∃ node ∈ reportSchedule.nodes, node.item = .task "tools" ∧ node.group = none) ∧
      ¬reportPlan.determine.plan.toInventory.IsNeededBefore (.ofPosition 1) (.task "tools") ∧
      (.task "compile" ∈ reportPlan.determine.plan.batches.entriesOf (.ofPosition 0) ∧
        .task "compile" ∈ reportPlan.determine.plan.index) ∧
      ¬reportSchedule.Leads (.task "compile") (.task "tools") := by
  have alone : ∀ node ∈ reportSchedule.nodes, node.item = .task "tools" →
      node.predecessors = [] := by decide
  refine ⟨ascends_reportPlan, determine_reportPlan,
    ⟨_, List.mem_cons_of_mem _ List.mem_cons_self, rfl, by decide⟩, by decide,
    ⟨reportSchedule.nodes[2], List.getElem_mem _, rfl, rfl⟩, not_isNeededBefore_reportPlan _,
    by decide, fun leads => ?_⟩
  obtain ⟨last, node, member, same, kind, waits⟩ := leads.exists_awaits
  rw [alone node member same] at waits
  cases waits

end Plan

end TaskPlanner
