import TaskPlanner.Proofs.Plan.Operations

/-! What a plan knows about items that it does not list. Requests list most of what they come
across, and only what is listed is reset when the plan is closed. A request also leaves traces in
items that it asked about before it failed, and in items that joined a batch without being
entered. -/

set_option autoImplicit false

namespace TaskPlanner

/-! ## Nodes -/

/-- What is known about an item that is not listed. It has been entered nowhere, and if it is no
stray, nothing has asked about it and it belongs to no batch. -/
structure Node.IsLeftover (stray : Prop) (node : Node) : Prop where
  processed : node.processed = false
  filtered : node.filtered = false
  related : node.required = true ∨ node.relations = {}
  clean : ¬ stray → node.required = false ∧ node.group = none

namespace Node

variable {stray other : Prop} {node : Node}

theorem IsClean.isLeftover (clean : node.IsClean) (stray : Prop) : node.IsLeftover stray :=
  ⟨clean.processed, clean.filtered, .inr clean.relations, fun _ => ⟨clean.required, clean.group⟩⟩

theorem IsLeftover.mono (leftover : node.IsLeftover stray) (weaker : stray → other) :
    node.IsLeftover other :=
  { leftover with clean := fun known => leftover.clean fun holds => known (weaker holds) }

/-- A stray is clean as well if nothing has asked about it and it belongs to no batch. -/
theorem IsLeftover.isClean_iff (leftover : node.IsLeftover stray) :
    node.IsClean ↔ node.required = false ∧ node.group = none := by
  constructor
  · intro clean
    exact ⟨clean.required, clean.group⟩
  · rintro ⟨required, group⟩
    refine ⟨group, required, leftover.filtered, leftover.processed, ?_⟩
    rcases leftover.related with asked | unrelated
    · rw [required] at asked
      cases asked
    · exact unrelated

theorem IsLeftover.mark (leftover : node.IsLeftover stray) (cannotRun executed : Bool) :
    ({ node with cannotRun, executed } : Node).IsLeftover stray :=
  ⟨leftover.processed, leftover.filtered, leftover.related, leftover.clean⟩

theorem IsLeftover.require (leftover : node.IsLeftover stray) (isStray : stray) :
    ({ node with required := true } : Node).IsLeftover stray :=
  ⟨leftover.processed, leftover.filtered, .inl rfl, fun known => absurd isStray known⟩

theorem IsLeftover.relate (leftover : node.IsLeftover stray) (required : node.required = true)
    (relations : Relations) : ({ node with relations } : Node).IsLeftover stray :=
  ⟨leftover.processed, leftover.filtered, .inl required, leftover.clean⟩

theorem IsLeftover.join (leftover : node.IsLeftover stray) (isStray : stray)
    (group : Option Ordinal) : (node.join group).IsLeftover stray :=
  Node.join_keeps (·.IsLeftover stray)
    (fun _ _ joining => ⟨joining.processed, joining.filtered, joining.related,
      fun known => absurd isStray known⟩) node group leftover

end Node

/-! ## What an inventory lists -/

namespace Inventory

variable {before middle after inventory : Inventory} {strays more : List WorkItem}
  {item : WorkItem}

/-- The item is to run, was rejected or requested, or finalizes an item that is to run. -/
def Lists (inventory : Inventory) (item : WorkItem) : Prop :=
  item ∈ inventory.index ∨ item ∈ inventory.filtered ∨ item ∈ inventory.entries ∨
    item ∈ inventory.finalizers

/-- What changes in nodes, changes in those of listed items. -/
structure Adds (before after : Inventory) : Prop where
  lists : ∀ item, before.Lists item → after.Lists item
  node : ∀ item, ¬ after.Lists item → after.node item = before.node item

theorem Adds.refl (inventory : Inventory) : inventory.Adds inventory :=
  ⟨fun _ => id, fun _ _ => rfl⟩

theorem Adds.trans (first : before.Adds middle) (second : middle.Adds after) : before.Adds after :=
  ⟨fun item listed => second.lists item (first.lists item listed), fun item unlisted =>
    (second.node item unlisted).trans
      (first.node item fun listed => unlisted (second.lists item listed))⟩

/-- Only strays among the items that are not listed have traces of requests. -/
def IsTraced (strays : List WorkItem) (inventory : Inventory) : Prop :=
  ∀ item, ¬ inventory.Lists item → (inventory.node item).IsLeftover (item ∈ strays)

theorem IsTraced.mono (traced : inventory.IsTraced strays) (subset : strays ⊆ more) :
    inventory.IsTraced more :=
  fun item unlisted => (traced item unlisted).mono (subset ·)

theorem IsTraced.adds (traced : before.IsTraced strays) (adds : before.Adds after) :
    after.IsTraced strays := by
  intro item unlisted
  rw [adds.node item unlisted]
  exact traced item fun listed => unlisted (adds.lists item listed)

/-- A change of one item that enters it into some list. -/
theorem adds_update {change : Node → Node}
    (catalog : after.catalog = before.catalog.update item change)
    (lists : ∀ item, before.Lists item → after.Lists item) (listed : after.Lists item) :
    before.Adds after := by
  refine ⟨lists, fun other unlisted => ?_⟩
  unfold Inventory.node
  rw [catalog, Catalog.node_update, if_neg]
  rintro rfl
  exact unlisted listed

theorem adds_addMarker (inventory : Inventory) (ordinal : Ordinal) :
    inventory.Adds (inventory.addMarker ordinal) :=
  adds_update rfl (fun _ => Or.imp_left fun indexed => ItemSet.mem_insert.mpr (.inl indexed))
    (.inl (ItemSet.mem_insert.mpr (.inr rfl)))

end Inventory

/-! ## Operations that ask nothing -/

namespace Plan

variable {plan : Plan} {strays calls asked : List WorkItem} {item : WorkItem}
  {resolver : Resolver} {submission : Submission}

theorem mem_listed : item ∈ plan.listed ↔ plan.toInventory.Lists item := by
  simp only [listed, List.mem_append, Inventory.Lists, ItemSet.mem_def, or_assoc]

theorem adds_mention (plan : Plan) (items : List WorkItem) :
    plan.toInventory.Adds (plan.mention items).toInventory :=
  ⟨fun _ => id, fun item _ => plan.node_mention items item⟩

theorem adds_request (plan : Plan) (ordinal : Ordinal) (item : WorkItem) :
    plan.toInventory.Adds (plan.request ordinal item).toInventory :=
  Inventory.adds_update rfl
    (fun _ => Or.imp_right (Or.imp_right (Or.imp_left fun requested =>
      ItemSet.mem_insert.mpr (.inl requested))))
    (.inr (.inr (.inl (ItemSet.mem_insert.mpr (.inr rfl)))))

theorem adds_prepare (plan : Plan) (submission : Submission) :
    plan.toInventory.Adds (plan.prepare submission).toInventory :=
  prepare_induction (fun other => plan.toInventory.Adds other.toInventory) (.refl _)
    (fun other items adds => adds.trans (other.adds_mention items))
    (fun _ _ => id) fun other item _ adds => adds.trans (other.adds_request _ item)

theorem adds_setAside (plan : Plan) (item : WorkItem) :
    plan.toInventory.Adds (plan.setAside item).toInventory :=
  Inventory.adds_update rfl
    (fun _ => Or.imp_right (Or.imp_left fun rejected => ItemSet.mem_insert.mpr (.inl rejected)))
    (.inr (.inl (ItemSet.mem_insert.mpr (.inr rfl))))

theorem adds_enroll (plan : Plan) (item : WorkItem) :
    plan.toInventory.Adds (plan.enroll item).toInventory :=
  Inventory.adds_update rfl
    (fun _ => Or.imp (fun indexed => ItemSet.mem_insert.mpr (.inl indexed))
      (Or.imp_right (Or.imp_right fun finalizes => ItemSet.mem_insertAll.mpr (.inl finalizes))))
    (.inl (ItemSet.mem_insert.mpr (.inr rfl)))

theorem adds_plant (plan : Plan) (item : WorkItem) (relations : Relations) :
    plan.toInventory.Adds (plan.plant item relations).toInventory :=
  Inventory.adds_update rfl
    (fun _ => Or.imp (fun indexed => ItemSet.mem_insert.mpr (.inl indexed))
      (Or.imp_right (Or.imp (fun requested => ItemSet.mem_insert.mpr (.inl requested))
        fun finalizes => ItemSet.mem_insertAll.mpr (.inl finalizes))))
    (.inl (ItemSet.mem_insert.mpr (.inr rfl)))

theorem adds_seed (plan : Plan) (seeds : List Seed) :
    plan.toInventory.Adds (plan.seed seeds).plan.toInventory :=
  seed_induction (fun other => plan.toInventory.Adds other.toInventory) (.refl _)
    (fun other items adds => adds.trans (other.adds_mention items))
    (fun other item relations adds => adds.trans (other.adds_plant item relations))
    (fun _ => id) seeds

theorem adds_determine (plan : Plan) :
    plan.toInventory.Adds plan.determine.plan.toInventory :=
  determine_induction plan.toInventory.Adds
    (fun other ordinal adds => adds.trans (other.adds_addMarker ordinal)) (.refl _)

/-! ## Asking -/

theorem isTraced_inquire (traced : plan.IsTraced strays) (stray : item ∈ strays) :
    (plan.inquire item).IsTraced strays := by
  intro other unlisted
  show ((plan.catalog.update item _).node other).IsLeftover _
  rw [Catalog.node_update]
  split
  next same =>
    subst same
    exact (traced other unlisted).require stray
  next => exact traced other unlisted

theorem isTraced_adopt {resolution : Resolution} (traced : plan.IsTraced strays)
    (required : (plan.node item).required = true)
    (joining : resolution.relations.hardSuccessors ⊆ strays) :
    (plan.adopt item resolution).IsTraced strays := by
  intro other unlisted
  show ((plan.adopt item resolution).catalog.node other).IsLeftover _
  rw [catalog_adopt]
  -- The item that was asked about stays required, so that its relations are accounted for.
  let property (node : Node) : Prop :=
    node.IsLeftover (other ∈ strays) ∧ (other = item → node.required = true)
  have recorded : property ((plan.catalog.record resolution).node other) :=
    Catalog.record_keeps property
      (fun _ executed kept => ⟨kept.1.mark _ executed, kept.2⟩)
      ⟨traced other unlisted, fun same => same ▸ required⟩
  refine Catalog.updateAll_keeps (·.IsLeftover (other ∈ strays))
    (fun listed _ leftover => leftover.join (joining listed) _) ?_
  rw [Catalog.node_update]
  split
  next same =>
    subst same
    exact recorded.1.relate (recorded.2 rfl) _
  next => exact recorded.1

end Plan

end TaskPlanner
