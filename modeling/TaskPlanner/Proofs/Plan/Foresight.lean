import TaskPlanner.Proofs.Plan.Restriction
import TaskPlanner.Proofs.Schedule.MarkerPlaces

/-! Inventories that have put some of their markers into the index before others. Once all markers
are in place, they differ in nothing but the places of the markers. -/

set_option autoImplicit false

namespace TaskPlanner

/-! ## Nodes of markers -/

/-- The node of a marker that was put into the index. -/
def Node.mark (node : Node) (ordinal : Ordinal) : Node :=
  { node.join (some ordinal) with required := true, processed := true }

theorem Node.mark_mark (node : Node) (ordinal : Ordinal) :
    (node.mark ordinal).mark ordinal = node.mark ordinal := by
  have refused : accepts ordinal (some ordinal) = false := decide_eq_false (Fin.lt_irrefl ordinal)
  unfold mark Node.join
  by_cases accepted : accepts ordinal node.group = true
  · simp [accepted, refused]
  · simp [accepted]

namespace Inventory

variable {early late inventory : Inventory} {item : WorkItem}

theorem node_addMarker (inventory : Inventory) (ordinal : Ordinal) (item : WorkItem) :
    (inventory.addMarker ordinal).node item =
      if item = .marker ordinal then (inventory.node item).mark ordinal
      else inventory.node item := by
  refine (inventory.catalog.node_update ..).trans ?_
  split
  next same => rw [same]; rfl
  next => rfl

theorem node_withMarkers_of_isPublic (inventory : Inventory) (unmarked : item.isPublic = true) :
    inventory.withMarkers.node item = inventory.node item := by
  refine withMarkers_induction (·.node item = inventory.node item) (fun other ordinal ih => ?_) rfl
  have different : item ≠ .marker ordinal := by
    rintro rfl
    cases unmarked
  rw [node_addMarker, if_neg different, ih]

theorem node_marker_withMarkers (inventory : Inventory) (ordinal : Ordinal) :
    inventory.withMarkers.node (.marker ordinal) =
      if ordinal ∈ inventory.markedOrdinals then (inventory.node (.marker ordinal)).mark ordinal
      else inventory.node (.marker ordinal) := by
  unfold withMarkers
  generalize inventory.markedOrdinals = ordinals
  induction ordinals generalizing inventory with
  | nil => rfl
  | cons first rest ih =>
      rw [List.foldl_cons, ih, node_addMarker]
      by_cases here : ordinal = first
      · simp [here, Node.mark_mark]
      · simp [here]

theorem index_restrict_withMarkers (inventory : Inventory) :
    inventory.withMarkers.index.restrict WorkItem.isPublic =
      inventory.index.restrict WorkItem.isPublic :=
  withMarkers_induction (·.index.restrict WorkItem.isPublic = inventory.index.restrict _)
    (fun other _ ih => (ItemSet.restrict_insert_of_not_keep other.index rfl).trans ih) rfl

/-- Markers that come into an index without any stand behind all other items. -/
theorem pairwise_withMarkers (unmarked : ∀ item ∈ inventory.index, item.isPublic = true) :
    inventory.withMarkers.index.items.Pairwise fun before behind =>
      before.isPublic = false → behind.isPublic = false := by
  refine withMarkers_induction (·.index.items.Pairwise fun before behind =>
    before.isPublic = false → behind.isPublic = false) (fun other ordinal ih => ?_) ?_
  · show (other.index.insert (.marker ordinal)).items.Pairwise _
    unfold ItemSet.insert
    split
    next => exact ih
    next =>
      refine List.pairwise_append.mpr ⟨ih, List.pairwise_singleton _ _, fun _ _ other last _ => ?_⟩
      rw [List.mem_singleton.mp last]
      rfl
  · refine List.pairwise_iff_forall_sublist.mpr fun {before behind} sub special => ?_
    rw [unmarked before (sub.subset List.mem_cons_self)] at special
    cases special

theorem Restricts.withMarkers_left (alike : early.Restricts WorkItem.isPublic late) :
    early.withMarkers.Restricts WorkItem.isPublic late := by
  refine withMarkers_induction (·.Restricts WorkItem.isPublic late) (fun other _ ih => ?_) alike
  exact { ih with
    catalog := ih.catalog.update_left rfl
    index := ih.index.trans (ItemSet.restrict_insert_of_not_keep other.index rfl).symm }

/-! ## Inventories that know some markers in advance -/

/-- Apart from the index, no marker is on the lists of the inventory. -/
def ListsPublic (inventory : Inventory) : Prop :=
  ∀ item, item ∈ inventory.entries ∨ item ∈ inventory.filtered ∨ item ∈ inventory.finalizers →
    item.isPublic = true

/-- The one inventory knows the same batches as the other, but may have put some of their markers
into its index already. -/
structure Foresees (early late : Inventory) : Prop where
  batches : late.batches = early.batches
  listed : early.ListsPublic
  distinct : early.index.items.Nodup
  marks : early.MarksBatches
  node : ∀ ordinal, early.node (.marker ordinal) = late.node (.marker ordinal) ∨
    early.node (.marker ordinal) = (late.node (.marker ordinal)).mark ordinal

/-- It has put all of them there. -/
structure Completes (early late : Inventory) : Prop extends early.Foresees late where
  present : ∀ ordinal ∈ early.markedOrdinals, WorkItem.marker ordinal ∈ early.index
  marked : ∀ ordinal ∈ early.markedOrdinals,
    early.node (.marker ordinal) = (late.node (.marker ordinal)).mark ordinal

theorem Foresees.withMarkers (foresees : early.Foresees late) :
    early.withMarkers.Completes late := by
  have marks := early.marks_withMarkers
  have ordinals : early.withMarkers.markedOrdinals = early.markedOrdinals :=
    congrArg (·.ordinals.tail) marks.batches
  have marked : ∀ ordinal, (early.node (.marker ordinal)).mark ordinal =
      (late.node (.marker ordinal)).mark ordinal := by
    intro ordinal
    rcases foresees.node ordinal with same | same
    · rw [same]
    · rw [same, Node.mark_mark]
  refine ⟨⟨foresees.batches.trans marks.batches.symm,
    withMarkers_induction ListsPublic (fun _ _ => id) foresees.listed,
    marks.distinct foresees.distinct, fun ordinal listed => ?_, fun ordinal => ?_⟩,
    early.marker_mem_withMarkers, fun ordinal listed => ?_⟩
  · rw [ordinals]
    rcases (marks.index _).mp listed with before | ⟨_, known, same⟩
    · exact foresees.marks ordinal before
    · cases same
      exact known
  · rw [node_marker_withMarkers]
    split
    next => exact .inr (marked ordinal)
    next => exact foresees.node ordinal
  · rw [node_marker_withMarkers, if_pos (ordinals ▸ listed), marked]

theorem lists_withMarkers (inventory : Inventory) :
    inventory.withMarkers.entries = inventory.entries ∧
      inventory.withMarkers.filtered = inventory.filtered ∧
      inventory.withMarkers.finalizers = inventory.finalizers :=
  withMarkers_induction (fun other => other.entries = inventory.entries ∧
    other.filtered = inventory.filtered ∧ other.finalizers = inventory.finalizers)
    (fun _ _ => id) ⟨rfl, rfl, rfl⟩

section

variable (completes : early.Completes late) (alike : early.Restricts WorkItem.isPublic late)

include completes alike

theorem Completes.filtered_eq : late.withMarkers.filtered = early.filtered := by
  rw [late.lists_withMarkers.2.1, alike.filtered]
  exact ItemSet.restrict_eq_self fun item listed => completes.listed item (.inr (.inl listed))

theorem Completes.perm_index : late.withMarkers.index.items.Perm early.index.items := by
  have marks := late.marks_withMarkers
  have ordinals : late.markedOrdinals = early.markedOrdinals :=
    congrArg (·.ordinals.tail) completes.batches
  have distinct : late.index.items.Nodup := by
    rw [alike.index]
    exact completes.distinct.filter _
  rw [List.perm_ext_iff_of_nodup (marks.distinct distinct) completes.distinct]
  refine fun item => (marks.index item).trans ?_
  rw [alike.index, ItemSet.mem_restrict, ordinals]
  constructor
  · rintro (⟨listed, _⟩ | ⟨ordinal, marked, rfl⟩)
    · exact listed
    · exact completes.present ordinal marked
  · intro listed
    by_cases unmarked : item.isPublic = true
    · exact .inl ⟨listed, unmarked⟩
    · obtain ⟨ordinal, rfl⟩ := exists_marker_of_not_isPublic (Bool.eq_false_iff.mpr unmarked)
      exact .inr ⟨ordinal, completes.marks ordinal listed, rfl⟩

/-- With its markers, the other inventory knows the same about the items of the index. -/
theorem Completes.node_eq (idle : ∀ ordinal, early.relations (.marker ordinal) = {})
    (indexed : item ∈ early.index) :
    late.withMarkers.node item = (early.node item).restrict WorkItem.isPublic := by
  by_cases unmarked : item.isPublic = true
  · rw [node_withMarkers_of_isPublic late unmarked]
    exact alike.catalog item unmarked
  · obtain ⟨ordinal, rfl⟩ := exists_marker_of_not_isPublic (Bool.eq_false_iff.mpr unmarked)
    have marked := completes.marks ordinal indexed
    have ordinals : late.markedOrdinals = early.markedOrdinals :=
      congrArg (·.ordinals.tail) completes.batches
    have bare : (early.node (.marker ordinal)).relations = {} := idle ordinal
    rw [node_marker_withMarkers, if_pos (ordinals ▸ marked), ← completes.marked ordinal marked,
      Node.restrict_eq_self (by rw [bare]; rfl)]

/-- Once its other markers have been put into the index, the other inventory reads the same, except
for the places of the markers. -/
theorem Completes.resembles (idle : ∀ ordinal, early.relations (.marker ordinal) = {})
    (dependencies : ∀ item, ∀ other ∈ (early.relations item).dependencies, other.isPublic = true)
    (finalizers : ∀ item, ∀ other ∈ (early.relations item).finalizers, other.isPublic = true) :
    early.Resembles WorkItem.isPublic late.withMarkers := by
  have batches : late.withMarkers.batches = early.batches :=
    late.marks_withMarkers.batches.trans completes.batches
  have node : ∀ item ∈ early.index, late.withMarkers.node item =
    (early.node item).restrict WorkItem.isPublic := fun item => completes.node_eq alike idle
  have relations : ∀ item ∈ early.index, late.withMarkers.relations item =
      (early.relations item).restrict WorkItem.isPublic :=
    fun item indexed => congrArg Node.relations (node item indexed)
  have order : late.withMarkers.index.restrict WorkItem.isPublic =
      early.index.restrict WorkItem.isPublic := by
    rw [index_restrict_withMarkers, alike.index]
    exact ItemSet.restrict_eq_self fun item listed => (ItemSet.mem_restrict.mp listed).2
  refine ⟨completes.perm_index alike, congrArg ItemSet.items order, fun item indexed special => ?_,
    fun item indexed => by rw [node item indexed]; rfl,
    fun item indexed => by rw [node item indexed]; rfl,
    fun item indexed => by rw [relations item indexed]; rfl, fun item indexed => ?_,
    fun item indexed => ?_, fun item _ => ?_, fun item _ => ?_, by rw [batches],
    fun ordinal => by rw [batches]⟩
  · obtain ⟨ordinal, rfl⟩ := exists_marker_of_not_isPublic special
    exact ⟨rfl, idle ordinal⟩
  · rw [relations item indexed]
    exact congrArg (List.filter _) (List.filter_eq_self.mpr (dependencies item))
  · rw [relations item indexed]
    exact congrArg (List.filter _) (List.filter_eq_self.mpr (finalizers item))
  · rw [late.lists_withMarkers.1, alike.entries, ItemSet.mem_restrict]
    exact and_iff_left_of_imp fun listed => completes.listed item (.inl listed)
  · rw [late.lists_withMarkers.2.2, alike.finalizers, ItemSet.mem_restrict]
    exact and_iff_left_of_imp fun listed => completes.listed item (.inr (.inr listed))

end

end Inventory

end TaskPlanner
