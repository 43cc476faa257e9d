import Mathlib.Data.List.Count
import TaskPlanner.Proofs.Schedule.Likeness

/-! Items are numbered in the order in which they are mentioned. The schedule of an inventory does
not depend on the numbers: the ordering reads the catalog through the nodes of items alone. -/

set_option autoImplicit false

namespace TaskPlanner

namespace Catalog

variable {left right : Catalog} {item : WorkItem} {items others : List WorkItem}

/-- The catalogs know the same about the same items, though they may number them differently. -/
structure Renumbers (left right : Catalog) : Prop where
  node : ∀ item, right.node item = left.node item
  items : left.items.Perm right.items

theorem Renumbers.refl (catalog : Catalog) : catalog.Renumbers catalog := ⟨fun _ => rfl, .refl _⟩

theorem Renumbers.symm (same : left.Renumbers right) : right.Renumbers left :=
  ⟨fun item => (same.node item).symm, same.items.symm⟩

theorem Renumbers.size_eq (same : left.Renumbers right) : right.size = left.size := by
  have lengths := same.items.length_eq
  rw [Catalog.items, Catalog.items, List.length_map, List.length_map] at lengths
  exact lengths.symm

/-- A change adds its item to the catalog unless the item is there. -/
theorem count_items_update (catalog : Catalog) (item other : WorkItem) (change : Node → Node) :
    (catalog.update item change).items.count other =
      if other = item then max 1 (catalog.items.count other) else catalog.items.count other := by
  rw [items_update]
  by_cases same : other = item
  · subst same
    rw [if_pos rfl]
    split
    next listed => exact (Nat.max_eq_right (List.count_pos_iff.mpr listed)).symm
    next absent => simp [List.count_eq_zero_of_not_mem absent]
  · rw [if_neg same]
    split
    next => rfl
    next => simp [List.count_append, Ne.symm same]

theorem count_items_internAll (catalog : Catalog) (items : List WorkItem) (other : WorkItem) :
    (catalog.internAll items).items.count other =
      if other ∈ items then max 1 (catalog.items.count other) else catalog.items.count other := by
  induction items generalizing catalog with
  | nil => rfl
  | cons item rest ih =>
      show ((catalog.intern item).internAll rest).items.count other = _
      rw [ih, intern, count_items_update]
      by_cases same : other = item
      · subst same
        rw [if_pos rfl, if_pos List.mem_cons_self]
        by_cases later : other ∈ rest
        · rw [if_pos later]
          omega
        · rw [if_neg later]
      · simp [same]

theorem Renumbers.update (same : left.Renumbers right) (item : WorkItem) (change : Node → Node) :
    (left.update item change).Renumbers (right.update item change) := by
  refine ⟨fun other => ?_, List.perm_iff_count.mpr fun other => ?_⟩
  · rw [node_update, node_update, same.node, same.node]
  · rw [count_items_update, count_items_update, same.items.count_eq]

theorem Renumbers.updateAll (same : left.Renumbers right) (items : List WorkItem)
    (change : Node → Node) :
    (left.updateAll items change).Renumbers (right.updateAll items change) := by
  induction items generalizing left right with
  | nil => exact same
  | cons item rest ih => exact ih (same.update item change)

/-- The order of mentions is a matter of numbers alone. -/
theorem Renumbers.internAll (same : left.Renumbers right)
    (members : ∀ item, item ∈ items ↔ item ∈ others) :
    (left.internAll items).Renumbers (right.internAll others) := by
  refine ⟨fun item => ?_, List.perm_iff_count.mpr fun item => ?_⟩
  · rw [node_internAll, node_internAll, same.node]
  · simp only [count_items_internAll, members item, same.items.count_eq]

theorem Renumbers.record (same : left.Renumbers right) (resolution : Resolution) :
    (left.record resolution).Renumbers (right.record resolution) := by
  refine Renumbers.internAll ?_ fun _ => Iff.rfl
  generalize resolution.successors = successors
  induction successors generalizing left right with
  | nil => exact same
  | cons successor rest ih => exact ih (same.update successor.item _)

theorem getElem?_of_number? {catalog : Catalog} {number : Nat}
    (numbered : catalog.number? item = some number) : catalog.items[number]? = some item := by
  obtain ⟨bound, found, _⟩ := List.findIdx?_eq_some_iff_getElem.mp numbered
  rw [List.getElem?_eq_getElem bound, of_decide_eq_true found]

theorem number?_eq_none_iff {catalog : Catalog} :
    catalog.number? item = none ↔ item ∉ catalog.items := by
  unfold number?
  rw [List.findIdx?_eq_none_iff]
  constructor
  · intro unknown member
    exact of_decide_eq_false (unknown item member) rfl
  · rintro absent other member
    exact decide_eq_false fun same => absent (same ▸ member)

/-- The numbers of the one catalog are those of the other under new names. -/
theorem Renumbers.exists_rename (same : left.Renumbers right) :
    ∃ rename : Nat → Nat, ∀ item, right.number? item = (left.number? item).map rename := by
  refine ⟨fun number => (left.items[number]?.bind right.number?).getD 0, fun item => ?_⟩
  cases numbered : left.number? item with
  | none =>
      rw [number?_eq_none_iff, same.items.mem_iff] at numbered
      exact number?_eq_none_iff.mpr numbered
  | some number =>
      have named := getElem?_of_number? numbered
      have known := same.items.mem_iff.mp (List.mem_of_getElem? named)
      rw [Option.map_some, named, Option.bind_some]
      cases other : right.number? item with
      | none => exact absurd known (number?_eq_none_iff.mp other)
      | some => rfl

end Catalog

namespace Inventory

variable {left right : Inventory}

/-- The inventories differ in nothing but the numbers of items. -/
inductive Renumbers (inventory : Inventory) : Inventory → Prop where
  | of {catalog : Catalog} :
      inventory.catalog.Renumbers catalog → Renumbers inventory { inventory with catalog }

theorem Renumbers.node_eq (same : left.Renumbers right) : right.node = left.node := by
  cases same with
  | of catalogs => exact funext catalogs.node

theorem Renumbers.relations_eq (same : left.Renumbers right) : right.relations = left.relations :=
  funext fun item => congrArg Node.relations (congrFun same.node_eq item)

/-- The ordering reads the same of inventories that differ in numbers alone. -/
theorem Renumbers.resembles (same : left.Renumbers right) :
    left.Resembles (fun _ => true) right := by
  have nodes := congrFun same.node_eq
  have relations := congrFun same.relations_eq
  cases same with
  | of => exact {
      index := .refl _
      order := rfl
      idle := fun _ _ special => Bool.noConfusion special
      group := fun item _ => congrArg Node.group (nodes item)
      executed := fun item _ => congrArg Node.executed (nodes item)
      locks := fun item _ => congrArg Relations.locks (relations item)
      dependencies := fun item _ => by rw [relations item]
      finalizers := fun item _ => by rw [relations item]
      entries := fun _ _ => Iff.rfl
      closing := fun _ _ => Iff.rfl
      ordinals := rfl
      requested := fun _ => rfl }

/-- The schedule does not depend on the numbers of the items. -/
theorem Renumbers.schedule_eq (same : left.Renumbers right) : right.schedule = left.schedule := by
  have alike := same.resembles
  cases same with
  | of =>
      rw [alike.schedule_eq (alike.linearOrder_eq rfl)]
      exact left.map_filtered_schedule

theorem Renumbers.addMarker (same : left.Renumbers right) (ordinal : Ordinal) :
    (left.addMarker ordinal).Renumbers (right.addMarker ordinal) := by
  cases same with
  | of catalogs => exact .of (catalogs.update _ _)

theorem Renumbers.withMarkers (same : left.Renumbers right) :
    left.withMarkers.Renumbers right.withMarkers := by
  have ordinals : right.markedOrdinals = left.markedOrdinals := by
    cases same
    rfl
  unfold Inventory.withMarkers
  rw [ordinals]
  clear ordinals
  generalize left.markedOrdinals = marked
  induction marked generalizing left right with
  | nil => exact same
  | cons ordinal rest ih => exact ih (same.addMarker ordinal)

end Inventory

end TaskPlanner
