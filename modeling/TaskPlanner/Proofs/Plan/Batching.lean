import TaskPlanner.Proofs.Plan.Submissions
import TaskPlanner.Proofs.Schedule.Constraints

/-! Requests in any order, with or without ordinals, keep the batches in order, and keep every
requested item in its batch or in an earlier one. -/

set_option autoImplicit false

namespace TaskPlanner

/-! ## Changing one batch -/

namespace Batches

variable {ordinal : Ordinal} {change : Batch → Batch} {batches : List Batch}

theorem mem_changeIn {batch : Batch} (member : batch ∈ changeIn ordinal change batches) :
    batch ∈ batches ∨ ∃ before, batch = change before ∧ before.ordinal = ordinal ∧
      (before ∈ batches ∨ before = { ordinal }) := by
  induction batches with
  | nil => exact .inr ⟨_, List.mem_singleton.mp member, rfl, .inr rfl⟩
  | cons head rest ih =>
      unfold changeIn at member
      split at member
      · rcases List.mem_cons.mp member with rfl | old
        · exact .inr ⟨_, rfl, rfl, .inr rfl⟩
        · exact .inl old
      · split at member
        next same =>
          rcases List.mem_cons.mp member with rfl | old
          · exact .inr ⟨head, rfl, same.symm, .inl List.mem_cons_self⟩
          · exact .inl (List.mem_cons_of_mem _ old)
        next =>
          rcases List.mem_cons.mp member with rfl | later
          · exact .inl List.mem_cons_self
          · rcases ih later with old | ⟨before, same, named, known⟩
            · exact .inl (List.mem_cons_of_mem _ old)
            · exact .inr ⟨before, same, named, known.imp (List.mem_cons_of_mem _) id⟩

theorem pairwise_changeIn (keeps : ∀ batch, (change batch).ordinal = batch.ordinal)
    (ascending : batches.Pairwise fun left right => left.ordinal < right.ordinal) :
    (changeIn ordinal change batches).Pairwise fun left right => left.ordinal < right.ordinal := by
  induction batches with
  | nil => exact List.pairwise_singleton _ _
  | cons head rest ih =>
      obtain ⟨first, restAscending⟩ := List.pairwise_cons.mp ascending
      unfold changeIn
      split
      next before =>
        refine List.pairwise_cons.mpr ⟨fun other member => ?_, ascending⟩
        rw [keeps]
        rcases List.mem_cons.mp member with rfl | later
        · exact before
        · exact Fin.lt_trans before (first other later)
      next notBefore =>
        split
        next same =>
          refine List.pairwise_cons.mpr ⟨fun other member => ?_, restAscending⟩
          rw [keeps]
          exact first other member
        next different =>
          refine List.pairwise_cons.mpr ⟨fun other member => ?_, ih restAscending⟩
          rcases mem_changeIn member with old | ⟨before, rfl, rfl, _⟩
          · exact first other old
          · rw [keeps]
            exact Nat.lt_of_le_of_ne (Fin.not_lt.mp notBefore)
              fun same => different (Fin.ext same.symm)

theorem IsAscending.addEntry {registry : Batches} (ascending : registry.IsAscending)
    (ordinal : Ordinal) (item : WorkItem) : (registry.addEntry ordinal item).IsAscending :=
  List.pairwise_map.mpr (pairwise_changeIn (fun _ => rfl) (List.pairwise_map.mp ascending))

/-- What is requested in a batch was so before, or is the new entry. -/
theorem mem_entries_addEntry {registry : Batches} {item entry : WorkItem} {batch : Batch}
    (member : batch ∈ (registry.addEntry ordinal item).batches)
    (requested : entry ∈ batch.entries) :
    (∃ before ∈ registry.batches, before.ordinal = batch.ordinal ∧ entry ∈ before.entries) ∨
      batch.ordinal = ordinal ∧ entry = item := by
  rcases mem_changeIn member with old | ⟨before, rfl, rfl, known⟩
  · exact .inl ⟨batch, old, rfl, requested⟩
  · rcases ItemSet.mem_insert.mp requested with earlier | rfl
    · rcases known with present | fresh
      · exact .inl ⟨before, present, rfl, earlier⟩
      · rw [fresh] at earlier
        cases earlier
    · exact .inr ⟨rfl, rfl⟩

end Batches

/-! ## Joining batches -/

namespace Node

variable {node : Node} {ordinal : Ordinal}

theorem DueBy.of_growsInto {before after : Node} (due : before.DueBy ordinal)
    (grows : before.GrowsInto after) : after.DueBy ordinal := by
  obtain ⟨current, present, early⟩ := due
  rcases grows.group.cases with same | ⟨joined, moved, earlier⟩
  · exact ⟨current, same.trans present, early⟩
  · exact ⟨joined, moved, Fin.le_trans (Fin.le_of_lt (earlier current present)) early⟩

theorem DueBy.join (due : node.DueBy ordinal) (group : Option Ordinal) :
    (node.join group).DueBy ordinal :=
  due.of_growsInto (node.growsInto_join group)

/-- A node that joins a batch belongs to that batch or to the one that it belonged to before. -/
theorem group_join (node : Node) (ordinal : Ordinal) :
    (node.join (some ordinal)).group = node.group ∨
      (node.join (some ordinal)).group = some ordinal := by
  unfold join
  dsimp only
  split
  · exact .inr rfl
  · exact .inl rfl

theorem group_join_cases (node : Node) (ordinal group : Ordinal)
    (present : (node.join (some ordinal)).group = some group) :
    node.group = some group ∨ group = ordinal := by
  rcases node.group_join ordinal with same | joined
  · exact .inl (same ▸ present)
  · exact .inr (Option.some.inj (present.symm.trans joined))

theorem dueBy_join (node : Node) (ordinal : Ordinal) :
    (node.join (some ordinal)).DueBy ordinal := by
  unfold join
  dsimp only
  split
  · exact ⟨ordinal, rfl, Fin.le_refl _⟩
  next refused =>
    cases present : node.group with
    | none =>
        rw [present] at refused
        exact absurd rfl refused
    | some current =>
        rw [present] at refused
        exact ⟨current, present, Fin.not_lt.mp fun before => refused (decide_eq_true before)⟩

end Node

/-! ## Requests and walks -/

/-- The batches of a plan hold what callers may request, each item in good time. -/
structure Plan.IsBatched (plan : Plan) : Prop where
  batched : plan.toInventory.Batched
  unmarked : ∀ batch ∈ plan.batches.batches, ∀ entry ∈ batch.entries, entry.isMarker = false

theorem Inventory.Batched.of_dueBy {before after : Inventory} (batched : before.Batched)
    (batches : after.batches = before.batches)
    (dueBy : ∀ item ordinal, (before.node item).DueBy ordinal → (after.node item).DueBy ordinal) :
    after.Batched := by
  refine ⟨by rw [batches]; exact batched.ascending, fun batch member entry requested => ?_⟩
  rw [batches] at member
  exact dueBy entry _ (batched.joined batch member entry requested)

namespace Plan

variable {plan : Plan} {resolver : Resolver} {submission : Submission}

theorem IsFresh.isBatched (fresh : plan.IsFresh) : plan.IsBatched := by
  have batches : plan.batches.batches = [] :=
    congrArg (fun found => found.batches.batches) fresh.inventory
  refine ⟨⟨?_, fun batch member => ?_⟩, fun batch member => ?_⟩
  · show (plan.batches.batches.map (·.ordinal)).Pairwise (· < ·)
    rw [batches]
    exact .nil
  · rw [show plan.toInventory.batches.batches = [] from batches] at member
    cases member
  · rw [batches] at member
    cases member

theorem node_request (plan : Plan) (ordinal : Ordinal) (item other : WorkItem) :
    (plan.request ordinal item).node other =
      if other = item then (plan.node item).join (some ordinal) else plan.node other :=
  plan.catalog.node_update item other _

/-- The batches of a plan hold what callers may request, each item in good time, apart from items
that the plan may have forgotten. -/
structure IsBatchedExcept (forgotten : WorkItem → Prop) (plan : Plan) : Prop where
  ascending : plan.batches.IsAscending
  unmarked : ∀ batch ∈ plan.batches.batches, ∀ entry ∈ batch.entries, entry.isMarker = false
  joined : ∀ batch ∈ plan.batches.batches, ∀ entry ∈ batch.entries, ¬ forgotten entry →
    (plan.node entry).DueBy batch.ordinal

theorem isBatched_iff : plan.IsBatched ↔ plan.IsBatchedExcept fun _ => False := by
  constructor
  · rintro ⟨batched, unmarked⟩
    exact ⟨batched.ascending, unmarked,
      fun batch member entry requested _ => batched.joined batch member entry requested⟩
  · rintro ⟨ascending, unmarked, joined⟩
    exact ⟨⟨ascending, fun batch member entry requested => joined batch member entry requested id⟩,
      unmarked⟩

theorem IsBatchedExcept.of_dueBy {forgotten : WorkItem → Prop} {before after : Plan}
    (isBatched : before.IsBatchedExcept forgotten) (batches : after.batches = before.batches)
    (dueBy : ∀ item ordinal, ¬ forgotten item → (before.node item).DueBy ordinal →
      (after.node item).DueBy ordinal) :
    after.IsBatchedExcept forgotten := by
  obtain ⟨ascending, unmarked, joined⟩ := isBatched
  rw [← batches] at ascending unmarked joined
  exact ⟨ascending, unmarked, fun batch member entry requested known =>
    dueBy entry _ known (joined batch member entry requested known)⟩

theorem IsBatchedExcept.request {forgotten : WorkItem → Prop}
    (isBatched : plan.IsBatchedExcept forgotten) (ordinal : Ordinal) {item : WorkItem}
    (unmarked : item.isMarker = false) :
    (plan.request ordinal item).IsBatchedExcept forgotten := by
  obtain ⟨ascending, entriesUnmarked, joined⟩ := isBatched
  constructor
  · exact ascending.addEntry ordinal item
  · intro batch member entry requested
    rcases Batches.mem_entries_addEntry member requested with
      ⟨before, present, _, earlier⟩ | ⟨_, rfl⟩
    · exact entriesUnmarked before present entry earlier
    · exact unmarked
  · intro batch member entry requested known
    rcases Batches.mem_entries_addEntry member requested with
      ⟨before, present, same, earlier⟩ | ⟨rfl, rfl⟩
    · exact Catalog.update_keeps (fun node => node.DueBy batch.ordinal)
        (fun _ due => due.join _) (same ▸ joined before present entry earlier known)
    · rw [node_request, if_pos rfl]
      exact Node.dueBy_join _ _

theorem IsBatchedExcept.prepare {forgotten : WorkItem → Prop}
    (isBatched : plan.IsBatchedExcept forgotten)
    (unmarked : ∀ item ∈ submission.requested, item.isMarker = false) :
    (plan.prepare submission).IsBatchedExcept forgotten := by
  refine prepare_induction (IsBatchedExcept forgotten) isBatched (fun other items ih => ?_)
    (fun _ _ ih => ⟨ih.ascending, ih.unmarked, ih.joined⟩)
    fun other item requested ih => ih.request _ (unmarked item requested)
  refine ih.of_dueBy rfl fun item ordinal _ due => ?_
  rw [node_mention]
  exact due

theorem IsBatched.prepare (isBatched : plan.IsBatched)
    (unmarked : ∀ item ∈ submission.requested, item.isMarker = false) :
    (plan.prepare submission).IsBatched :=
  isBatched_iff.mpr ((isBatched_iff.mp isBatched).prepare unmarked)

end Plan

namespace Walk

variable {resolver : Resolver} {walk next : Walk}

/-- No step of a walk puts an item into a later batch. -/
theorem Moves.dueBy (moves : Moves resolver walk next) {item : WorkItem} {ordinal : Ordinal}
    (due : (walk.plan.node item).DueBy ordinal) : (next.plan.node item).DueBy ordinal :=
  due.of_growsInto (moves.growsInto.catalog item)

theorem Moves.batches_eq (moves : Moves resolver walk next) :
    next.plan.batches = walk.plan.batches := by
  rw [moves.keepsRequests]

theorem Reaches.isBatchedExcept {last : Walk} {forgotten : WorkItem → Prop}
    (reaches : Reaches resolver walk last) (isBatched : walk.plan.IsBatchedExcept forgotten) :
    last.plan.IsBatchedExcept forgotten := by
  induction reaches with
  | refl => exact isBatched
  | tail _ moves ih => exact ih.of_dueBy moves.batches_eq fun _ _ _ => moves.dueBy

theorem Reaches.isBatched {last : Walk} (reaches : Reaches resolver walk last)
    (isBatched : walk.plan.IsBatched) : last.plan.IsBatched :=
  Plan.isBatched_iff.mpr (reaches.isBatchedExcept (Plan.isBatched_iff.mp isBatched))

end Walk

/-! ## Markers -/

namespace Inventory

/-- What putting the markers of `ordinals` into the index does to an inventory. -/
structure Marks (ordinals : List Ordinal) (before after : Inventory) : Prop where
  batches : after.batches = before.batches
  relations : ∀ item, after.relations item = before.relations item
  index : ∀ item, item ∈ after.index ↔
    item ∈ before.index ∨ ∃ ordinal ∈ ordinals, item = .marker ordinal
  distinct : before.index.items.Nodup → after.index.items.Nodup
  dueBy : ∀ item ordinal, (before.node item).DueBy ordinal → (after.node item).DueBy ordinal
  grouped : ∀ item group, (after.node item).group = some group →
    (before.node item).group = some group ∨ group ∈ ordinals ∧ item = .marker group

theorem marks_foldl_addMarker (ordinals : List Ordinal) (inventory : Inventory) :
    Marks ordinals inventory (ordinals.foldl addMarker inventory) := by
  induction ordinals generalizing inventory with
  | nil => exact ⟨rfl, fun _ => rfl, fun _ => by simp, id, fun _ _ => id, fun _ _ => .inl⟩
  | cons ordinal rest ih =>
      obtain ⟨batches, relations, index, distinct, dueBy, grouped⟩ :=
        ih (inventory.addMarker ordinal)
      refine ⟨batches, fun item => (relations item).trans ?_, fun item => (index item).trans ?_,
        fun before => distinct (ItemSet.nodup_insert before _),
        fun item bound due => dueBy item bound ?_, fun item group present => ?_⟩
      · exact Catalog.update_keeps (fun node => node.relations = inventory.relations item)
          (fun node same => (node.relations_join _).trans same) rfl
      · show item ∈ inventory.index.insert (.marker ordinal) ∨ _ ↔ _
        simp only [ItemSet.mem_insert, or_assoc, List.mem_cons, exists_eq_or_imp]
      · exact Catalog.update_keeps (fun node => node.DueBy bound) (fun _ due => due.join _) due
      · rcases grouped item group present with marked | ⟨later, same⟩
        · rw [show (inventory.addMarker ordinal).node item = _ from
            inventory.catalog.node_update (.marker ordinal) item _] at marked
          split at marked
          next same =>
            rcases (inventory.node (.marker ordinal)).group_join_cases ordinal group marked with
              known | rfl
            · exact .inl (same ▸ known)
            · exact .inr ⟨List.mem_cons_self, same⟩
          next => exact .inl marked
        · exact .inr ⟨List.mem_cons_of_mem _ later, same⟩

/-- What a marker keeps, all markers keep. -/
theorem withMarkers_induction (property : Inventory → Prop)
    (addMarker : ∀ inventory ordinal, property inventory → property (inventory.addMarker ordinal))
    {inventory : Inventory} (holds : property inventory) : property inventory.withMarkers := by
  unfold withMarkers
  generalize inventory.markedOrdinals = ordinals
  induction ordinals generalizing inventory with
  | nil => exact holds
  | cons ordinal rest ih => exact ih (addMarker inventory ordinal holds)

theorem marks_withMarkers (inventory : Inventory) :
    Marks inventory.markedOrdinals inventory inventory.withMarkers :=
  marks_foldl_addMarker inventory.markedOrdinals inventory

theorem marker_mem_withMarkers (inventory : Inventory) :
    ∀ ordinal ∈ inventory.withMarkers.markedOrdinals,
      WorkItem.marker ordinal ∈ inventory.withMarkers.index := by
  have marks := inventory.marks_withMarkers
  intro ordinal marked
  unfold markedOrdinals at marked
  rw [marks.batches] at marked
  exact (marks.index _).mpr (.inr ⟨ordinal, marked, rfl⟩)

end Inventory

end TaskPlanner
