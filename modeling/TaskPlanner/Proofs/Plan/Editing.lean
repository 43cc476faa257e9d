import TaskPlanner.Proofs.Discovery.Accounts
import TaskPlanner.Proofs.Plan.Closing
import TaskPlanner.Proofs.Plan.CycleRejection
import TaskPlanner.Proofs.Plan.Retention
import TaskPlanner.Proofs.Schedule.LinearExtension

/-! What a plan is handed out with. Whatever was done to it since it was made or closed, its schedule
lists the items of its index, and for each of their dependencies there is a place in the schedule,
or a reason for having none. -/

set_option autoImplicit false

namespace TaskPlanner

/-- The nodes are those of items to run, and wait for all dependencies that are among these. -/
def Schedule.KeepsTo (schedule : Schedule) (inventory : Inventory) : Prop :=
  ∀ node ∈ schedule.nodes, node.item ∈ inventory.index ∧
    ∀ dependency ∈ inventory.index, dependency ∈ (inventory.relations node.item).dependencies →
      (dependency, .dependency) ∈ node.predecessors

namespace Inventory

variable {inventory : Inventory} {seeded lost : List WorkItem}

theorem cannotRun_addMarker (inventory : Inventory) (ordinal : Ordinal) (item : WorkItem) :
    ((inventory.addMarker ordinal).node item).cannotRun = (inventory.node item).cannotRun :=
  Catalog.update_keeps (fun node => node.cannotRun = (inventory.node item).cannotRun)
    (fun node => (node.cannotRun_join _).trans) rfl

theorem relations_addMarker (inventory : Inventory) (ordinal : Ordinal) (item : WorkItem) :
    (inventory.addMarker ordinal).relations item = inventory.relations item :=
  Catalog.update_keeps (fun node => node.relations = inventory.relations item)
    (fun node => (node.relations_join _).trans) rfl

theorem Admitted.addMarker (admitted : inventory.Admitted seeded) (ordinal : Ordinal) :
    (inventory.addMarker ordinal).Admitted seeded := by
  apply admitted.enter _ (inventory.cannotRun_addMarker ordinal) rfl rfl
  · intro barred
    cases admitted.unmarked _ barred
  · intro other
    exact Catalog.processed_update fun _ => rfl

theorem Awaits.addMarker (awaits : inventory.Awaits seeded lost) (ordinal : Ordinal) :
    (inventory.addMarker ordinal).Awaits seeded lost := by
  intro item indexed unseeded unmarked dependency related
  rw [relations_addMarker] at related
  unfold AccountsFor
  rw [cannotRun_addMarker]
  rcases ItemSet.mem_insert.mp indexed with before | rfl
  · exact (awaits item before unseeded unmarked dependency related).imp_left fun listed =>
      ItemSet.mem_insert.mpr (.inl listed)
  · cases unmarked

theorem keepsTo_schedule {schedule : Schedule} (scheduled : inventory.schedule = .ok schedule) :
    schedule.KeepsTo inventory := by
  have extension := extends_schedule scheduled
  intro node member
  exact ⟨(extension.exact node.item).mp (Schedule.mem_items member),
    extension.dependencies node member⟩

end Inventory

namespace Plan

variable {plan before after : Plan} {resolver : Resolver} {seeded lost more : List WorkItem}

/-! ## Edits -/

/-- What can be done to a plan before it is handed out. -/
inductive Edit where
  | accept (accepts : String → Bool)
  | proceed (continueOnFailure : Bool)
  | mention (items : List WorkItem)
  | onComplete (handler : String)
  | take (resolver : Resolver) (submission : Submission)
  | seed (seeds : List Seed)
  | determine
  | retainFirst (count : Nat)

/-- The plan behind an edit, which may have been refused or have failed. -/
def edited (plan : Plan) : Edit → Plan
  | .accept accepts => { plan with accepts }
  | .proceed continueOnFailure => { plan with continueOnFailure }
  | .mention items => plan.mention items
  | .onComplete handler => plan.onComplete handler
  | .take resolver submission => (plan.take resolver submission).plan
  | .seed seeds => (plan.seed seeds).plan
  | .determine => plan.determine.plan
  | .retainFirst count => (plan.retainFirst count).plan

/-- The items that an edit plants as seeds. -/
def seededBy (plan : Plan) : Edit → List WorkItem
  | .seed seeds => (plan.seed seeds).plan.index.items.filter (· ∉ plan.index)
  | _ => []

/-- The items that an edit asks about in vain or cuts off. -/
def lostBy (plan : Plan) : Edit → List WorkItem
  | .take resolver submission =>
      (plan.take resolver submission).plan.droppedSince plan.inquiries.asked.length
  | .retainFirst count => plan.index.items.filter (· ∉ (plan.retainFirst count).plan.index)
  | _ => []

theorem Reachable.edited (reachable : plan.Reachable) (edit : Edit) :
    (plan.edited edit).Reachable := by
  cases edit with
  | accept accepts => exact .accept accepts reachable
  | proceed continueOnFailure => exact .proceed continueOnFailure reachable
  | mention items => exact .mention items reachable
  | onComplete handler => exact .onComplete handler reachable
  | take resolver submission =>
      cases submission with
      | tasks names ordinal? => exact .submit resolver names ordinal? reachable
      | items entries ordinal? => exact .addEntries resolver entries ordinal? reachable
  | seed seeds => exact .seed seeds reachable
  | determine => exact .determine reachable
  | retainFirst count => exact .retainFirst count reachable

/-! ## What no edit changes -/

theorem isKept_isFinalized (isFinalized : Bool) :
    IsKept fun plan => plan.isFinalized = isFinalized where
  mention _ _ := id
  openBatch _ _ := id
  request _ _ _ := id
  expand resolver plan queue same := by
    obtain ⟨last, reaches, stops⟩ := plan.exists_last_expand resolver queue
    rw [reaches.keepsRequests.trans stops.keepsRequests]
    exact same
  plant _ _ _ := id
  precompute _ := id

theorem isFinalized_edited (plan : Plan) (edit : Edit) :
    (plan.edited edit).isFinalized = plan.isFinalized := by
  cases edit with
  | accept | proceed | mention | onComplete => rfl
  | take resolver submission => exact (isKept_isFinalized _).take rfl resolver submission
  | seed seeds => exact (isKept_isFinalized _).seed rfl seeds
  | determine =>
      show plan.determine.plan.isFinalized = plan.isFinalized
      have determined := plan.determines
      generalize plan.determine = attempt at determined ⊢
      cases determined <;> rfl
  | retainFirst count =>
      show (plan.retainFirst count).plan.isFinalized = plan.isFinalized
      unfold retainFirst
      split
      · rfl
      · dsimp only
        split <;> rfl

theorem isKept_cannotRun (item : WorkItem) (cannotRun : Bool) :
    IsKept fun plan => (plan.node item).cannotRun = cannotRun where
  mention plan items same := by rw [node_mention, same]
  openBatch _ _ := id
  request plan ordinal other same :=
    ((sameFindings_request plan ordinal other).cannotRun item).trans same
  expand resolver plan queue same := by
    obtain ⟨last, reaches, stops⟩ := plan.exists_last_expand resolver queue
    exact ((stops.cannotRun_eq item).trans (reaches.cannotRun_eq item)).trans same
  plant _ _ _ same :=
    Catalog.update_keeps (fun node => node.cannotRun = cannotRun) (fun _ => id) same
  precompute _ := id

theorem cannotRun_shortened (plan : Plan) (count : Nat) (item : WorkItem) :
    ((plan.shortened count).node item).cannotRun = (plan.node item).cannotRun :=
  Catalog.updateAll_keeps (fun node => node.cannotRun = (plan.node item).cannotRun)
    (fun _ _ => id) rfl

theorem cannotRun_determine (plan : Plan) (item : WorkItem) :
    (plan.determine.plan.node item).cannotRun = (plan.node item).cannotRun :=
  determine_induction
    (fun inventory => (inventory.node item).cannotRun = (plan.node item).cannotRun)
    (fun inventory ordinal => (inventory.cannotRun_addMarker ordinal item).trans) rfl

theorem cannotRun_finalize (plan : Plan) (item : WorkItem) :
    (plan.finalize.plan.node item).cannotRun = (plan.node item).cannotRun := by
  show (plan.finalize.plan.toInventory.node item).cannotRun = _
  rw [(finalize_cases plan).2.2]
  exact plan.cannotRun_determine item

/-- Handing a plan out adds markers to what it has found out, or nothing. -/
theorem exists_marks_finalize (plan : Plan) :
    ∃ ordinals, Inventory.Marks ordinals plan.toInventory plan.finalize.plan.toInventory := by
  rw [(finalize_cases plan).2.2]
  rcases plan.toInventory_determine with same | marked
  · rw [same]
    exact ⟨[], Inventory.marks_foldl_addMarker [] _⟩
  · rw [marked]
    exact ⟨_, plan.toInventory.marks_withMarkers⟩

theorem isFinalized_finalize (unfinalized : plan.isFinalized = false) :
    plan.finalize.plan.isFinalized = true ↔ ∃ schedule, plan.finalize.result = .ok schedule := by
  have kept : plan.determine.plan.isFinalized = false :=
    (plan.isFinalized_edited .determine).trans unfinalized
  unfold finalize
  dsimp only
  split
  · simp [kept]
  · simp

/-- Only closing a plan decides about what cannot run. -/
theorem cannotRun_edited (plan : Plan) (edit : Edit) (item : WorkItem) :
    ((plan.edited edit).node item).cannotRun = (plan.node item).cannotRun := by
  cases edit with
  | accept | proceed | onComplete => rfl
  | mention items => exact congrArg Node.cannotRun (plan.node_mention items item)
  | take resolver submission => exact (isKept_cannotRun item _).take rfl resolver submission
  | seed seeds => exact (isKept_cannotRun item _).seed rfl seeds
  | determine => exact plan.cannotRun_determine item
  | retainFirst count =>
      show ((plan.retainFirst count).plan.node item).cannotRun = (plan.node item).cannotRun
      unfold retainFirst
      split
      · rfl
      · dsimp only
        split
        · rfl
        · exact plan.cannotRun_shortened count item

/-! ## The books of a plan -/

/-- What is known of a plan with the given seeds, if nothing but the given items was lost. -/
structure Accounts (seeded lost : List WorkItem) (plan : Plan) : Prop where
  admitted : plan.Admitted seeded
  awaits : plan.Awaits seeded lost
  ordered : plan.needsOrdering = false → (plan.schedule?.getD {}).KeepsTo plan.toInventory

theorem Accounts.mono {moreLost : List WorkItem} (accounts : plan.Accounts seeded lost)
    (seeds : seeded ⊆ more) (losses : lost ⊆ moreLost) : plan.Accounts more moreLost :=
  ⟨accounts.admitted.mono seeds, accounts.awaits.mono seeds losses, accounts.ordered⟩

theorem SameFindings.agrees (same : before.SameFindings after) :
    before.toInventory.Agrees after.toInventory :=
  ⟨same.index, same.filtered, same.processed, same.cannotRun⟩

theorem Accounts.mention (accounts : plan.Accounts seeded lost) (items : List WorkItem) :
    (plan.mention items).Accounts seeded lost := by
  have same := sameFindings_mention plan items
  refine ⟨same.agrees.admitted accounts.admitted,
    same.agrees.awaits same.relations accounts.awaits, fun settled node member => ?_⟩
  show _ ∧ ∀ dependency ∈ plan.index,
    dependency ∈ ((plan.mention items).relations node.item).dependencies → _
  rw [same.relations]
  exact accounts.ordered settled node member

theorem Accounts.take (accounts : plan.Accounts seeded lost) (resolver : Resolver)
    (submission : Submission) :
    (plan.take resolver submission).plan.Accounts seeded
      (lost ++ (plan.take resolver submission).plan.droppedSince plan.inquiries.asked.length) := by
  cases finalized : plan.isFinalized with
  | true =>
      rw [take_of_isFinalized finalized]
      exact accounts.mono (List.Subset.refl _) (List.subset_append_left _ _)
  | false =>
      have same := sameFindings_prepare plan submission
      have awaits := same.agrees.awaits same.relations accounts.awaits
      have opening : Walk.Accounts seeded lost plan.inquiries.asked
          { plan := plan.prepare submission, queue := submission.visits } := by
        refine ⟨⟨nofun, List.nil_subset _, List.nodup_nil⟩,
          same.agrees.admitted accounts.admitted, nofun,
          fun item indexed unseeded unmarked dependency related =>
            .inl (awaits item indexed unseeded unmarked dependency related), [], ?_,
          List.nil_subset _⟩
        rw [same.inquiries, List.append_nil]
      have ordering : (plan.take resolver submission).plan.needsOrdering = true := by
        rw [take_keepsRequests resolver finalized submission]
        exact needsOrdering_prepare plan submission
      obtain ⟨last, reaches, stops⟩ := exists_last_take resolver finalized submission
      obtain ⟨admitted, awaited⟩ := stops.accounts (reaches.accounts opening)
      refine ⟨admitted, awaited, fun settled => ?_⟩
      rw [ordering] at settled
      cases settled

/-! ## Seeds -/

theorem seed_cases (plan : Plan) (seeds : List Seed) :
    (plan.seed seeds).plan = plan ∨ plan.index.items = [] ∧ plan.needsOrdering = false := by
  unfold seed
  split
  · exact .inl rfl
  · split
    · exact .inl rfl
    next fresh =>
      right
      simp only [Bool.or_eq_true, Bool.not_eq_true', not_or] at fresh
      obtain ⟨⟨settled, _⟩, empty⟩ := fresh
      exact ⟨List.isEmpty_iff.mp (Bool.not_eq_false _ |>.mp empty), Bool.eq_false_iff.mpr settled⟩

theorem admitted_plant (admitted : plan.Admitted plan.index.items) (item : WorkItem)
    (relations : Relations) :
    (plan.plant item relations).Admitted (plan.plant item relations).index.items := by
  have larger : plan.index.items ⊆ (plan.index.insert item).items :=
    fun other indexed => ItemSet.mem_insert.mpr (.inl indexed)
  have processed : ∀ other, ((plan.plant item relations).node other).processed =
      (decide (other = item) || (plan.node other).processed) :=
    fun other => Catalog.processed_update fun _ => rfl
  have cannotRun : ∀ other, ((plan.plant item relations).node other).cannotRun =
      (plan.node other).cannotRun :=
    fun other => (isKept_cannotRun other _).plant plan item relations rfl
  exact (admitted.mono larger).enter processed cannotRun rfl rfl
    fun _ => ItemSet.mem_insert.mpr (.inr rfl)

theorem Accounts.seed (accounts : plan.Accounts seeded lost) (seeds : List Seed) :
    (plan.seed seeds).plan.Accounts
      (seeded ++ (plan.seed seeds).plan.index.items.filter (· ∉ plan.index)) lost := by
  rcases plan.seed_cases seeds with same | ⟨empty, settled⟩
  · rw [same]
    exact accounts.mono (List.subset_append_left _ _) (List.Subset.refl _)
  · have unindexed : ∀ item, item ∉ plan.index := by
      intro item indexed
      rw [ItemSet.mem_def, empty] at indexed
      cases indexed
    have new : (plan.seed seeds).plan.index.items ⊆
        seeded ++ (plan.seed seeds).plan.index.items.filter (· ∉ plan.index) :=
      fun item indexed => List.mem_append_right _
        (List.mem_filter.mpr ⟨indexed, decide_eq_true (unindexed item)⟩)
    have admitted : (plan.seed seeds).plan.Admitted (plan.seed seeds).plan.index.items :=
      seed_induction (fun plan => plan.Admitted plan.index.items)
        ⟨accounts.admitted.known, accounts.admitted.entered, fun _ indexed _ => indexed,
          accounts.admitted.unmarked⟩
        (fun plan items admitted => (sameFindings_mention plan items).agrees.admitted admitted)
        (fun _ item relations admitted => admitted_plant admitted item relations)
        (fun _ => id) seeds
    -- Before a plan is filled, its schedule is empty, and seeds that fail leave it at that.
    have unordered : (plan.seed seeds).plan.needsOrdering = false →
        ((plan.seed seeds).plan.schedule?.getD {}).nodes = [] := by
      refine seed_induction
        (fun plan => plan.needsOrdering = false → (plan.schedule?.getD {}).nodes = [])
        (fun _ => List.eq_nil_iff_forall_not_mem.mpr fun node member => ?_)
        (fun _ _ => id) (fun _ _ _ => id) (fun _ _ => nofun) seeds
      exact unindexed node.item (accounts.ordered settled node member).1
    refine ⟨admitted.mono new, fun item indexed unseeded => absurd (new indexed) unseeded,
      fun still node member => ?_⟩
    rw [unordered still] at member
    cases member

/-! ## Ordering and cutting back -/

theorem Accounts.determine (accounts : plan.Accounts seeded lost) :
    plan.determine.plan.Accounts seeded lost ∧
      ∀ schedule, plan.determine.result = .ok schedule →
        schedule.KeepsTo plan.determine.plan.toInventory := by
  have admitted : plan.toInventory.withMarkers.Admitted seeded :=
    Inventory.withMarkers_induction (·.Admitted seeded)
      (fun _ ordinal admitted => admitted.addMarker ordinal) accounts.admitted
  have awaits : plan.toInventory.withMarkers.Awaits seeded lost :=
    Inventory.withMarkers_induction (·.Awaits seeded lost)
      (fun _ ordinal awaits => awaits.addMarker ordinal) accounts.awaits
  have determined := plan.determines
  generalize plan.determine = attempt at determined ⊢
  cases determined with
  | settled settled =>
      have keepsTo := accounts.ordered settled
      refine ⟨⟨accounts.admitted, accounts.awaits, fun _ => keepsTo⟩, fun other same => ?_⟩
      cases same
      exact keepsTo
  | failed pending _ =>
      refine ⟨⟨admitted, awaits, fun settled => ?_⟩, nofun⟩
      cases pending.symm.trans settled
  | scheduled _ scheduled =>
      have keepsTo := Inventory.keepsTo_schedule scheduled
      refine ⟨⟨admitted, awaits, fun _ => keepsTo⟩, fun other same => ?_⟩
      cases same
      exact keepsTo

theorem Accounts.finalize (accounts : plan.Accounts seeded lost) :
    plan.finalize.plan.Accounts seeded lost ∧
      ∀ schedule, plan.finalize.result = .ok schedule →
        schedule.KeepsTo plan.finalize.plan.toInventory := by
  obtain ⟨determined, keepsTo⟩ := accounts.determine
  unfold Plan.finalize
  dsimp only
  split
  next => exact ⟨determined, nofun⟩
  next schedule scheduled =>
    refine ⟨⟨determined.admitted, determined.awaits, determined.ordered⟩, fun other same => ?_⟩
    cases same
    exact keepsTo schedule scheduled

/-- What is cut off is not finished any more. -/
theorem admitted_shortened (admitted : plan.Admitted seeded) (distinct : plan.index.items.Nodup)
    (count : Nat) : (plan.shortened count).Admitted seeded := by
  have cannotRun := plan.cannotRun_shortened count
  have apart := List.disjoint_take_drop distinct (Nat.le_refl count)
  constructor
  · intro item processed
    by_cases removed : item ∈ plan.index.beyond count
    · have reset : ((plan.shortened count).node item).processed = false :=
        Catalog.updateAll_brings (·.processed = false) (fun _ => rfl) removed
      rw [show _ = false from reset] at processed
      cases processed
    · have kept : (plan.shortened count).node item = plan.node item :=
        Catalog.node_updateAll_of_not_mem removed
      rw [show _ = plan.node item from kept] at processed
      refine (admitted.known item processed).imp_left fun indexed => ?_
      exact ((ItemSet.mem_iff_mem_keepFirst_or_mem_beyond count).mp indexed).resolve_right removed
  · intro item indexed
    have kept : (plan.shortened count).node item = plan.node item :=
      Catalog.node_updateAll_of_not_mem (apart indexed)
    exact (congrArg Node.processed kept).trans
      (admitted.entered item (List.mem_of_mem_take indexed))
  · intro item indexed barred
    exact admitted.barred item (List.mem_of_mem_take indexed) ((cannotRun item).symm.trans barred)
  · intro item barred
    exact admitted.unmarked item ((cannotRun item).symm.trans barred)

theorem awaits_shortened (awaits : plan.Awaits seeded lost) (distinct : plan.index.items.Nodup)
    (count : Nat) :
    (plan.shortened count).Awaits seeded
      (lost ++ plan.index.items.filter (· ∉ (plan.shortened count).index)) := by
  intro item indexed unseeded unmarked dependency related
  have apart := List.disjoint_take_drop distinct (Nat.le_refl count)
  have relations : (plan.shortened count).relations item = plan.relations item :=
    congrArg Node.relations (Catalog.node_updateAll_of_not_mem (apart indexed))
  rw [show _ = _ from relations] at related
  rcases awaits item (List.mem_of_mem_take indexed) unseeded unmarked dependency related with
    listed | rejected | barred | before
  · by_cases kept : dependency ∈ (plan.shortened count).index
    · exact .inl kept
    · exact .inr (.inr (.inr (List.mem_append_right _
        (List.mem_filter.mpr ⟨listed, decide_eq_true kept⟩))))
  · exact .inr (.inl rejected)
  · exact .inr (.inr (.inl ((plan.cannotRun_shortened count dependency).trans barred)))
  · exact .inr (.inr (.inr (List.mem_append_left _ before)))

theorem Accounts.retainFirst (accounts : plan.Accounts seeded lost)
    (distinct : plan.index.items.Nodup) (count : Nat) :
    (plan.retainFirst count).plan.Accounts seeded
      (lost ++ plan.index.items.filter (· ∉ (plan.retainFirst count).plan.index)) := by
  have unchanged : plan.Accounts seeded (lost ++ plan.index.items.filter (· ∉ plan.index)) :=
    accounts.mono (List.Subset.refl _) (List.subset_append_left _ _)
  cases finalized : plan.isFinalized with
  | true =>
      unfold Plan.retainFirst
      rw [if_pos finalized]
      exact unchanged
  | false =>
      rw [retainFirst_eq finalized]
      dsimp only
      split
      next => exact unchanged
      next =>
        exact ⟨admitted_shortened accounts.admitted distinct count,
          awaits_shortened accounts.awaits distinct count, nofun⟩

/-! ## The life of a plan between two executions -/

/-- Whatever is done to a plan, its books are kept. -/
theorem Accounts.edited (accounts : plan.Accounts seeded lost) (reachable : plan.Reachable)
    (edit : Edit) :
    (plan.edited edit).Accounts (seeded ++ plan.seededBy edit) (lost ++ plan.lostBy edit) := by
  have more := List.subset_append_left seeded (plan.seededBy edit)
  have moreLost := List.subset_append_left lost (plan.lostBy edit)
  cases edit with
  | accept accepts =>
      exact Accounts.mono ⟨accounts.admitted, accounts.awaits, accounts.ordered⟩ more moreLost
  | proceed continueOnFailure =>
      exact Accounts.mono ⟨accounts.admitted, accounts.awaits, accounts.ordered⟩ more moreLost
  | mention items => exact (accounts.mention items).mono more moreLost
  | onComplete handler =>
      exact Accounts.mono ⟨accounts.admitted, accounts.awaits, accounts.ordered⟩ more moreLost
  | take resolver submission =>
      exact (accounts.take resolver submission).mono more (List.Subset.refl _)
  | seed seeds => exact (accounts.seed seeds).mono (List.Subset.refl _) moreLost
  | determine => exact accounts.determine.1.mono more moreLost
  | retainFirst count =>
      exact (accounts.retainFirst reachable.distinct count).mono more (List.Subset.refl _)

theorem accounts_new (name : String) : Plan.Accounts [] [] { name } := by
  have unindexed : ∀ item, item ∉ ({} : ItemSet) := fun _ => List.not_mem_nil
  exact ⟨⟨nofun, fun item indexed => absurd indexed (unindexed item),
    fun item indexed => absurd indexed (unindexed item), nofun⟩,
    fun item indexed => absurd indexed (unindexed item), fun _ => nofun⟩

theorem cannotRun_close (plan : Plan) (executed : List WorkItem) (item : WorkItem) :
    ((plan.close executed).node item).cannotRun =
      (decide (item ∈ executed) || (plan.node item).cannotRun) := by
  rw [node_close]
  dsimp only
  split <;> rfl

/-- A closed plan starts from scratch, but for what cannot run. -/
theorem Accounts.close (accounts : plan.Accounts seeded lost) {executed : List WorkItem}
    (unmarked : ∀ item ∈ executed, item.isMarker = false) :
    (plan.close executed).Accounts [] [] := by
  have unindexed : ∀ item, item ∉ (plan.close executed).index := fun _ => List.not_mem_nil
  refine ⟨⟨fun item processed => ?_, fun item indexed => absurd indexed (unindexed item),
    fun item indexed => absurd indexed (unindexed item), fun item barred => ?_⟩,
    fun item indexed => absurd indexed (unindexed item), fun _ => nofun⟩
  · rw [show _ = _ from plan.node_close executed item] at processed
    dsimp only at processed
    split at processed
    · cases processed
    next unlisted =>
      refine absurd (mem_listed.mpr ?_) unlisted
      exact (accounts.admitted.known item processed).imp_right .inl
  · rw [show _ = _ from plan.cannotRun_close executed item, Bool.or_eq_true,
      decide_eq_true_eq] at barred
    exact barred.elim (unmarked item) (accounts.admitted.unmarked item)

end Plan

end TaskPlanner
