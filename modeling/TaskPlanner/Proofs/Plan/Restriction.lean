import TaskPlanner.Proofs.Plan.Arrangement
import TaskPlanner.Proofs.Plan.Batching
import TaskPlanner.Proofs.Plan.Operations

/-! Plans that are alike as far as some of the items go. The steps of a walk that meet other items
change nothing for those, and the remaining steps are the same, so requests that are alike keep
plans alike. -/

set_option autoImplicit false

namespace TaskPlanner

/-! ## What is left of the data of a plan -/

def ItemSet.restrict (set : ItemSet) (keep : WorkItem → Bool) : ItemSet :=
  { items := set.items.filter keep }

def Relations.restrict (relations : Relations) (keep : WorkItem → Bool) : Relations where
  hardSuccessors := relations.hardSuccessors.filter keep
  dependencies := relations.dependencies.filter keep
  finalizers := relations.finalizers.filter keep
  locks := relations.locks

def Node.restrict (node : Node) (keep : WorkItem → Bool) : Node :=
  { node with relations := node.relations.restrict keep }

def Resolution.restrict (resolution : Resolution) (keep : WorkItem → Bool) : Resolution where
  successors := resolution.successors.filter (keep ·.item)
  finalizers := resolution.finalizers.filter keep
  locks := resolution.locks

/-- A batch none of whose entries is kept is no batch any more. -/
def Batch.restrict? (keep : WorkItem → Bool) (batch : Batch) : Option Batch :=
  let entries := batch.entries.restrict keep
  if entries.isEmpty then none else some { batch with entries }

def Batches.restrict (registry : Batches) (keep : WorkItem → Bool) : Batches :=
  { batches := registry.batches.filterMap (Batch.restrict? keep) }

def Submission.restrict (submission : Submission) (keep : WorkItem → Bool) : Submission :=
  match submission with
  | tasks names ordinal? => tasks (names.filter (keep <| .task ·)) ordinal?
  | items entries ordinal? => items (entries.filter keep) ordinal?

variable {keep : WorkItem → Bool} {item : WorkItem}

theorem ItemSet.mem_restrict {set : ItemSet} :
    item ∈ set.restrict keep ↔ item ∈ set ∧ keep item = true :=
  List.mem_filter

theorem ItemSet.restrict_insert_of_keep (set : ItemSet) (kept : keep item = true) :
    (set.insert item).restrict keep = (set.restrict keep).insert item := by
  unfold insert
  by_cases present : item ∈ set
  · rw [if_pos present, if_pos (mem_restrict.mpr ⟨present, kept⟩)]
  · rw [if_neg present, if_neg fun inside => present (mem_restrict.mp inside).1]
    simp [restrict, kept]

theorem ItemSet.restrict_insert_of_not_keep (set : ItemSet) (dropped : keep item = false) :
    (set.insert item).restrict keep = set.restrict keep := by
  unfold insert
  split
  · rfl
  · simp [restrict, dropped]

theorem ItemSet.restrict_insertAll (set : ItemSet) (items : List WorkItem) :
    (set.insertAll items).restrict keep = (set.restrict keep).insertAll (items.filter keep) := by
  induction items generalizing set with
  | nil => rfl
  | cons item rest ih =>
      show ((set.insert item).insertAll rest).restrict keep = _
      rw [ih]
      by_cases kept : keep item = true
      · rw [List.filter_cons_of_pos kept, restrict_insert_of_keep set kept]
        rfl
      · rw [List.filter_cons_of_neg kept,
          restrict_insert_of_not_keep set (Bool.eq_false_iff.mpr kept)]

theorem ItemSet.restrict_eq_self {set : ItemSet} (kept : ∀ item ∈ set, keep item = true) :
    set.restrict keep = set :=
  congrArg ItemSet.mk (List.filter_eq_self.mpr kept)

theorem Node.restrict_eq_self {node : Node}
    (kept : node.relations.restrict keep = node.relations) : node.restrict keep = node := by
  unfold restrict
  rw [kept]

theorem Resolution.restrict_eq_self {resolution : Resolution}
    (kept : ∀ other ∈ resolution.mentioned, keep other = true) :
    resolution.restrict keep = resolution := by
  unfold restrict
  rw [List.filter_eq_self.mpr fun successor listed =>
      kept _ (List.mem_append_left _ (List.mem_map_of_mem listed)),
    List.filter_eq_self.mpr fun finalizer listed => kept _ (List.mem_append_right _ listed)]

theorem Resolution.relations_restrict (resolution : Resolution) (keep : WorkItem → Bool) :
    (resolution.restrict keep).relations = resolution.relations.restrict keep := by
  simp only [Resolution.relations, Resolution.restrict, Relations.restrict, List.filter_map,
    List.filter_filter, Function.comp_def, Bool.and_comm]

@[simp] theorem Submission.requested_restrict (submission : Submission) :
    (submission.restrict keep).requested = submission.requested.filter keep := by
  cases submission with
  | tasks names ordinal? => simp [restrict, requested, List.filter_map, Function.comp_def]
  | items entries ordinal? => rfl

@[simp] theorem Submission.ordinal?_restrict (submission : Submission) :
    (submission.restrict keep).ordinal? = submission.ordinal? := by
  cases submission <;> rfl

theorem Submission.restrict_eq_self {submission : Submission}
    (kept : ∀ item ∈ submission.requested, keep item = true) :
    submission.restrict keep = submission := by
  cases submission with
  | tasks names ordinal? =>
      refine congrArg (Submission.tasks · ordinal?) (List.filter_eq_self.mpr fun name listed => ?_)
      exact kept _ (List.mem_map_of_mem listed)
  | items entries ordinal? =>
      exact congrArg (Submission.items · ordinal?) (List.filter_eq_self.mpr kept)

theorem Submission.visits_restrict (submission : Submission) :
    (submission.restrict keep).visits = submission.visits.filter (keep ·.item) := by
  simp [visits, WorkItem.arranged_filter, List.filter_map, Function.comp_def]

namespace Batches

variable {batch : Batch} {batches : List Batch} {ordinal : Ordinal}

theorem changeIn_of_lt {change : Batch → Batch}
    (later : ∀ batch ∈ batches, ordinal < batch.ordinal) :
    changeIn ordinal change batches = change { ordinal } :: batches := by
  cases batches with
  | nil => rfl
  | cons batch rest => rw [changeIn, if_pos (later batch List.mem_cons_self)]

theorem ordinal_of_restrict? {other : Batch} (left : batch.restrict? keep = some other) :
    other.ordinal = batch.ordinal := by
  unfold Batch.restrict? at left
  dsimp only at left
  split at left
  · cases left
  · cases left
    rfl

theorem lt_of_mem_filterMap (later : ∀ batch ∈ batches, ordinal < batch.ordinal) :
    ∀ batch ∈ batches.filterMap (Batch.restrict? keep), ordinal < batch.ordinal := by
  intro other member
  obtain ⟨batch, listed, left⟩ := List.mem_filterMap.mp member
  rw [ordinal_of_restrict? left]
  exact later batch listed

theorem restrict?_insert_of_keep (batch : Batch) (kept : keep item = true) :
    Batch.restrict? keep { batch with entries := batch.entries.insert item } =
      some { batch with entries := (batch.entries.restrict keep).insert item } := by
  have some : ((batch.entries.restrict keep).insert item).isEmpty = false := by
    unfold ItemSet.insert ItemSet.isEmpty
    split
    next present => exact List.isEmpty_eq_false_iff.mpr (List.ne_nil_of_mem present)
    next => simp
  unfold Batch.restrict?
  simp [ItemSet.restrict_insert_of_keep batch.entries kept, some]

theorem restrict?_insert_of_not_keep (batch : Batch) (dropped : keep item = false) :
    Batch.restrict? keep { batch with entries := batch.entries.insert item } =
      batch.restrict? keep := by
  simp [Batch.restrict?, ItemSet.restrict_insert_of_not_keep batch.entries dropped]

/-- A kept entry comes to its batch, or makes a batch again of what was none. -/
theorem restrict_addEntry_of_keep {registry : Batches} (ascending : registry.IsAscending)
    (ordinal : Ordinal) (kept : keep item = true) :
    (registry.addEntry ordinal item).restrict keep =
      (registry.restrict keep).addEntry ordinal item := by
  obtain ⟨batches⟩ := registry
  unfold addEntry restrict
  congr 1
  dsimp only
  have ordered := List.pairwise_map.mp ascending
  dsimp only at ordered
  clear ascending
  induction batches with
  | nil => simp [changeIn, restrict?_insert_of_keep { ordinal } kept, ItemSet.restrict]
  | cons batch rest ih =>
      obtain ⟨first, later⟩ := List.pairwise_cons.mp ordered
      rw [changeIn]
      split
      next before =>
        have behind : ∀ other ∈ batch :: rest, ordinal < other.ordinal :=
          List.forall_mem_cons.mpr ⟨before, fun other member => before.trans (first other member)⟩
        rw [List.filterMap_cons_some (restrict?_insert_of_keep { ordinal } kept),
          changeIn_of_lt (lt_of_mem_filterMap behind)]
        simp [ItemSet.restrict]
      next notBefore =>
        split
        next same =>
          subst same
          rw [List.filterMap_cons_some (restrict?_insert_of_keep batch kept)]
          cases left : batch.restrict? keep with
          | none =>
              rw [List.filterMap_cons_none left, changeIn_of_lt (lt_of_mem_filterMap first)]
              have none : batch.entries.restrict keep = {} := congrArg ItemSet.mk
                (by simpa [Batch.restrict?, ItemSet.isEmpty] using left :
                  (batch.entries.restrict keep).items = [])
              rw [none]
          | some other =>
              have same := ordinal_of_restrict? left
              have entries : other.entries = batch.entries.restrict keep := by
                unfold Batch.restrict? at left
                dsimp only at left
                split at left
                · cases left
                · cases left
                  rfl
              rw [List.filterMap_cons_some left, changeIn, if_neg (by simp [same]),
                if_pos same.symm, entries, same]
        next different =>
          cases left : batch.restrict? keep with
          | none => rw [List.filterMap_cons_none left, List.filterMap_cons_none left, ih later]
          | some other =>
              have same := ordinal_of_restrict? left
              rw [List.filterMap_cons_some left, List.filterMap_cons_some left, changeIn, same,
                if_neg notBefore, if_neg different, ih later]

theorem restrict_addEntry_of_not_keep (registry : Batches) (ordinal : Ordinal)
    (dropped : keep item = false) :
    (registry.addEntry ordinal item).restrict keep = registry.restrict keep := by
  obtain ⟨batches⟩ := registry
  have opened : Batch.restrict? keep { ordinal, entries := ({} : ItemSet).insert item } = none := by
    rw [restrict?_insert_of_not_keep { ordinal } dropped]
    rfl
  unfold addEntry restrict
  congr 1
  dsimp only
  induction batches with
  | nil => exact List.filterMap_cons_none opened
  | cons batch rest ih =>
      rw [changeIn]
      split
      next => exact List.filterMap_cons_none opened
      next =>
        split
        next => rw [List.filterMap_cons, restrict?_insert_of_not_keep batch dropped]; rfl
        next => rw [List.filterMap_cons, ih]; rfl

end Batches

/-! ## Catalogs -/

namespace Catalog

variable {left right : Catalog} {change changeToo : Node → Node} {items others : List WorkItem}

/-- The catalogs know the same about the kept items, as far as these go. -/
def Restricts (keep : WorkItem → Bool) (left right : Catalog) : Prop :=
  ∀ item, keep item = true → right.node item = (left.node item).restrict keep

theorem Restricts.update (same : left.Restricts keep right) (item : WorkItem)
    (commutes : ∀ node, changeToo (node.restrict keep) = (change node).restrict keep) :
    (left.update item change).Restricts keep (right.update item changeToo) := by
  intro other kept
  rw [node_update, node_update]
  split
  next here => rw [← here, same other kept, commutes]
  next => exact same other kept

theorem Restricts.update_left (same : left.Restricts keep right) (dropped : keep item = false) :
    (left.update item change).Restricts keep right := by
  intro other kept
  rw [node_update, if_neg fun here => by rw [here, dropped] at kept; cases kept]
  exact same other kept

theorem Restricts.internAll (same : left.Restricts keep right) (items others : List WorkItem) :
    (left.internAll items).Restricts keep (right.internAll others) := by
  intro other kept
  rw [node_internAll, node_internAll, same other kept]

theorem Restricts.updateAll (same : left.Restricts keep right) (items : List WorkItem)
    (commutes : ∀ node, change (node.restrict keep) = (change node).restrict keep) :
    (left.updateAll items change).Restricts keep (right.updateAll (items.filter keep) change) := by
  induction items generalizing left right with
  | nil => exact same
  | cons item rest ih =>
      by_cases kept : keep item = true
      · rw [List.filter_cons_of_pos kept]
        exact ih (same.update item commutes)
      · rw [List.filter_cons_of_neg kept]
        exact ih (same.update_left (Bool.eq_false_iff.mpr kept))

theorem Restricts.record (same : left.Restricts keep right) (resolution : Resolution) :
    (left.record resolution).Restricts keep (right.record (resolution.restrict keep)) := by
  refine Restricts.internAll ?_ _ _
  show Restricts keep _ ((resolution.successors.filter (keep ·.item)).foldl _ right)
  generalize resolution.successors = successors
  induction successors generalizing left right with
  | nil => exact same
  | cons successor rest ih =>
      rw [List.filter_cons]
      by_cases kept : keep successor.item = true
      · rw [if_pos kept]
        exact ih (same.update successor.item fun _ => rfl)
      · rw [if_neg kept]
        exact ih (same.update_left (Bool.eq_false_iff.mpr kept))

end Catalog

theorem Node.join_restrict (node : Node) (group : Option Ordinal) :
    (node.restrict keep).join group = (node.join group).restrict keep := by
  unfold Node.join
  cases group with
  | none => rfl
  | some ordinal =>
      dsimp only
      show (if accepts ordinal node.group = true then _ else _) = _
      split <;> rfl

/-- The inventories are alike as far as the kept items go, of which the one knows nothing but. -/
structure Inventory.Restricts (keep : WorkItem → Bool) (left right : Inventory) : Prop where
  catalog : left.catalog.Restricts keep right.catalog
  index : right.index = left.index.restrict keep
  entries : right.entries = left.entries.restrict keep
  filtered : right.filtered = left.filtered.restrict keep
  finalizers : right.finalizers = left.finalizers.restrict keep
  batches : right.batches = left.batches.restrict keep
  ascending : left.batches.IsAscending

namespace Plan

/-- The plans are alike as far as the kept items go, and go on alike. -/
structure Restricts (keep : WorkItem → Bool) (left right : Plan) : Prop extends
    Inventory.Restricts keep left.toInventory right.toInventory where
  acceptsItem : ∀ item, keep item = true → right.acceptsItem item = left.acceptsItem item
  nextOrdinal : right.nextOrdinal = left.nextOrdinal
  isFinalized : right.isFinalized = left.isFinalized
  inquiries : right.inquiries = left.inquiries

variable {left right : Plan} {submission : Submission}

theorem Restricts.node_eq (same : left.Restricts keep right) (kept : keep item = true) :
    right.node item = (left.node item).restrict keep :=
  same.catalog item kept

theorem Restricts.relations_eq (same : left.Restricts keep right) (kept : keep item = true) :
    right.relations item = (left.relations item).restrict keep :=
  congrArg Node.relations (same.node_eq kept)

theorem Restricts.group_eq (same : left.Restricts keep right) (kept : keep item = true) :
    (right.node item).group = (left.node item).group := by
  rw [same.node_eq kept]
  rfl

theorem Restricts.processed_eq (same : left.Restricts keep right) (kept : keep item = true) :
    (right.node item).processed = (left.node item).processed := by
  rw [same.node_eq kept]
  rfl

theorem Restricts.cannotRun_eq (same : left.Restricts keep right) (kept : keep item = true) :
    (right.node item).cannotRun = (left.node item).cannotRun := by
  rw [same.node_eq kept]
  rfl

/-- What nothing was requested from is like itself. -/
theorem IsFresh.restricts {plan : Plan} (fresh : plan.IsFresh) (keep : WorkItem → Bool) :
    plan.Restricts keep plan := by
  have batches : plan.batches = {} := congrArg Inventory.batches fresh.inventory
  have index : plan.index = {} := congrArg Inventory.index fresh.inventory
  have filtered : plan.filtered = {} := congrArg Inventory.filtered fresh.inventory
  have entries : plan.entries = {} := congrArg Inventory.entries fresh.inventory
  have finalizers : plan.finalizers = {} := congrArg Inventory.finalizers fresh.inventory
  refine ⟨⟨fun item _ => ?_, by rw [index]; rfl, by rw [entries]; rfl, by rw [filtered]; rfl,
    by rw [finalizers]; rfl, by rw [batches]; rfl, by rw [batches]; exact .nil⟩,
    fun _ _ => rfl, rfl, rfl, rfl⟩
  have bare : (plan.catalog.node item).relations = {} := (fresh.clean item).relations
  exact (Node.restrict_eq_self (by rw [bare]; rfl)).symm

/-! ## Changes of a plan -/

theorem Restricts.setAside (same : left.Restricts keep right) (kept : keep item = true) :
    (left.setAside item).Restricts keep (right.setAside item) :=
  { same with
    catalog := same.catalog.update item fun _ => rfl
    filtered := by
      show right.filtered.insert item = (left.filtered.insert item).restrict keep
      rw [same.filtered, ItemSet.restrict_insert_of_keep left.filtered kept] }

theorem Restricts.setAside_left (same : left.Restricts keep right) (dropped : keep item = false) :
    (left.setAside item).Restricts keep right :=
  { same with
    catalog := same.catalog.update_left dropped
    filtered := same.filtered.trans
      (ItemSet.restrict_insert_of_not_keep left.filtered dropped).symm }

theorem Restricts.inquire (same : left.Restricts keep right) (item : WorkItem) :
    (left.inquire item).Restricts keep (right.inquire item) :=
  { same with
    catalog := same.catalog.update item fun _ => rfl
    inquiries := congrArg (·.ask item) same.inquiries }

theorem Restricts.adopt (same : left.Restricts keep right) (kept : keep item = true)
    (resolution : Resolution) :
    (left.adopt item resolution).Restricts keep (right.adopt item (resolution.restrict keep)) := by
  refine { same with catalog := ?_ }
  rw [catalog_adopt, catalog_adopt, same.group_eq kept, Resolution.relations_restrict]
  exact ((same.catalog.record resolution).update item fun _ => rfl).updateAll _
    fun node => node.join_restrict _

theorem Restricts.enroll (same : left.Restricts keep right) (kept : keep item = true) :
    (left.enroll item).Restricts keep (right.enroll item) :=
  { same with
    catalog := same.catalog.update item fun _ => rfl
    index := by
      show right.index.insert item = (left.index.insert item).restrict keep
      rw [same.index, ItemSet.restrict_insert_of_keep left.index kept]
    finalizers := by
      show right.finalizers.insertAll ((right.enroll item).relations item).finalizers =
        (left.finalizers.insertAll ((left.enroll item).relations item).finalizers).restrict keep
      rw [relations_enroll, relations_enroll, same.relations_eq kept, same.finalizers,
        ItemSet.restrict_insertAll]
      rfl }

theorem Restricts.request (same : left.Restricts keep right) (ordinal : Ordinal)
    (kept : keep item = true) :
    (left.request ordinal item).Restricts keep (right.request ordinal item) :=
  { same with
    catalog := same.catalog.update item fun node => node.join_restrict _
    entries := by
      show right.entries.insert item = (left.entries.insert item).restrict keep
      rw [same.entries, ItemSet.restrict_insert_of_keep left.entries kept]
    batches := by
      show right.batches.addEntry ordinal item = (left.batches.addEntry ordinal item).restrict keep
      rw [same.batches, Batches.restrict_addEntry_of_keep same.ascending ordinal kept]
    ascending := same.ascending.addEntry ordinal item }

theorem Restricts.request_left (same : left.Restricts keep right) (ordinal : Ordinal)
    (dropped : keep item = false) : (left.request ordinal item).Restricts keep right :=
  { same with
    catalog := same.catalog.update_left dropped
    entries := same.entries.trans
      (ItemSet.restrict_insert_of_not_keep left.entries dropped).symm
    batches := same.batches.trans
      (Batches.restrict_addEntry_of_not_keep left.batches ordinal dropped).symm
    ascending := same.ascending.addEntry ordinal item }

theorem Restricts.foldl_request (same : left.Restricts keep right) (ordinal : Ordinal)
    (items : List WorkItem) :
    (items.foldl (Plan.request ordinal) left).Restricts keep
      ((items.filter keep).foldl (Plan.request ordinal) right) := by
  induction items generalizing left right with
  | nil => exact same
  | cons item rest ih =>
      by_cases kept : keep item = true
      · rw [List.filter_cons_of_pos kept]
        exact ih (same.request ordinal kept)
      · rw [List.filter_cons_of_neg kept]
        exact ih (same.request_left ordinal (Bool.eq_false_iff.mpr kept))

theorem Restricts.ordinalFor_restrict (same : left.Restricts keep right)
    (submission : Submission) :
    right.ordinalFor (submission.restrict keep) = left.ordinalFor submission := by
  unfold ordinalFor
  rw [Submission.ordinal?_restrict, same.nextOrdinal]

/-- The same request, as far as the kept items go, is prepared alike. -/
theorem Restricts.prepare (same : left.Restricts keep right) (submission : Submission) :
    (left.prepare submission).Restricts keep (right.prepare (submission.restrict keep)) := by
  obtain ⟨items, prepared⟩ := left.exists_prepare_eq submission
  obtain ⟨others, preparedToo⟩ := right.exists_prepare_eq (submission.restrict keep)
  rw [prepared, preparedToo, same.ordinalFor_restrict, Submission.requested_restrict,
    WorkItem.arranged_filter]
  refine Restricts.foldl_request ?_ _ _
  exact { same with
    catalog := same.catalog.internAll items others
    nextOrdinal := by
      unfold openBatch
      rw [show (right.mention others).nextOrdinal = (left.mention items).nextOrdinal from
        same.nextOrdinal] }

end Plan

/-! ## Walks -/

/-- The one resolver tells what the other one tells, as far as the kept items go. -/
def Resolver.Restricts (keep : WorkItem → Bool) (left right : Resolver) : Prop :=
  ∀ item, keep item = true → right.answer item = (left.answer item).map (·.restrict keep)

/-- The attempts have the same result, and leave plans that are alike as far as the kept items
go. -/
structure Attempt.Restricts {α : Type} (keep : WorkItem → Bool) (left right : Attempt α) :
    Prop where
  result : right.result = left.result
  plan : left.plan.Restricts keep right.plan

namespace Walk

variable {left right : Walk} {visit : Visit} {rest : List Visit} {asked askedToo : Resolver}

/-- The walks are on the same path, in plans that are alike as far as the kept items go. -/
structure Restricts (keep : WorkItem → Bool) (left right : Walk) : Prop where
  plan : left.plan.Restricts keep right.plan
  queue : right.queue = left.queue.filter (keep ·.item)
  visiting : right.visiting = left.visiting
  path : right.path = left.path
  kept : ∀ item ∈ left.visiting, keep item = true

/-- The steps lead to walks that are alike, or stop with attempts that are. -/
inductive Progress.Restricts (keep : WorkItem → Bool) : Progress → Progress → Prop where
  | going {left right : Walk} :
      left.Restricts keep right → Restricts keep (.going left) (.going right)
  | stopped {left right : Attempt Unit} :
      left.Restricts keep right → Restricts keep (.stopped left) (.stopped right)

theorem filter_mem_filter {items visiting : List WorkItem}
    (kept : ∀ item ∈ visiting, keep item = true) :
    (items.filter keep).filter (· ∈ visiting) = items.filter (· ∈ visiting) := by
  rw [List.filter_filter]
  refine List.filter_congr fun item _ => ?_
  by_cases inside : item ∈ visiting
  · simp [kept item inside]
  · simp [inside]

/-- Visits of items that are not on the path, as far as the items are kept. -/
theorem map_filter_not_mem (link : Link) (items visiting : List WorkItem) :
    ((items.filter keep).filter (· ∉ visiting)).map (fun item => (⟨item, link⟩ : Visit)) =
      ((items.filter (· ∉ visiting)).map fun item => (⟨item, link⟩ : Visit)).filter
        (keep ·.item) := by
  rw [List.filter_map, List.filter_filter, List.filter_filter]
  refine congrArg (List.map _) (List.filter_congr fun item _ => ?_)
  exact Bool.and_comm _ _

theorem Restricts.enter (same : left.Restricts keep right)
    (resolvers : asked.Restricts keep askedToo) (kept : keep visit.item = true) :
    Progress.Restricts keep (left.enter asked visit) (right.enter askedToo visit) := by
  obtain ⟨plan, queue, visiting, path, entered⟩ := same
  have inquired := plan.inquire visit.item
  have inside : ∀ item ∈ visit.item :: left.visiting, keep item = true :=
    List.forall_mem_cons.mpr ⟨kept, entered⟩
  unfold Walk.enter
  rw [resolvers visit.item kept, visiting, path]
  cases asked.answer visit.item with
  | error fault => exact .stopped ⟨rfl, inquired⟩
  | ok resolution =>
      have adopted := inquired.adopt kept resolution
      simp only [Except.map, Resolution.relations_restrict, Relations.restrict,
        filter_mem_filter inside]
      cases closedByAny (visit :: left.path) (resolution.relations.dependencies.filter
          (· ∈ visit.item :: left.visiting)) with
      | some cycle => exact .stopped ⟨rfl, adopted⟩
      | none =>
          refine .going ⟨adopted, ?_, rfl, rfl, inside⟩
          rw [queue, List.filter_append, map_filter_not_mem]

theorem Restricts.leave (same : left.Restricts keep right) (kept : keep visit.item = true)
    (rest : List Visit) :
    (left.leave visit rest).Restricts keep
      (right.leave visit (rest.filter (keep ·.item))) := by
  obtain ⟨plan, queue, visiting, path, entered⟩ := same
  refine ⟨plan.enroll kept, ?_, congrArg (·.erase visit.item) visiting, congrArg List.tail path,
    fun item member => entered item (List.mem_of_mem_erase member)⟩
  unfold Walk.leave
  dsimp only
  rw [(plan.enroll kept).relations_eq kept, visiting, List.filter_append, List.filter_reverse,
    ← map_filter_not_mem]
  rfl

/-- A visit to a kept item is the same in both walks. -/
theorem Restricts.step (same : left.Restricts keep right)
    (resolvers : asked.Restricts keep askedToo)
    (kept : ∀ visit rest, left.queue = visit :: rest → keep visit.item = true) :
    Progress.Restricts keep (left.step asked) (right.step askedToo) := by
  have queue := same.queue
  unfold Walk.step
  cases front : left.queue with
  | nil =>
      rw [queue, front]
      exact .stopped ⟨rfl, same.plan⟩
  | cons visit rest =>
      have kept := kept visit rest front
      rw [front, List.filter_cons_of_pos (by exact kept)] at queue
      rw [queue]
      dsimp only
      rw [same.plan.processed_eq kept, same.plan.cannotRun_eq kept,
        same.plan.acceptsItem visit.item kept, same.visiting]
      split
      next => exact .going ⟨same.plan, rfl, rfl, same.path, same.kept⟩
      next =>
        split
        next => exact .going ⟨same.plan.setAside kept, rfl, rfl, same.path, same.kept⟩
        next =>
          split
          next => exact .going (same.leave kept rest)
          next => exact same.enter resolvers kept

/-- A visit to an item that the filter rejects, and that is not kept, passes without a trace. -/
theorem Restricts.step_left (same : left.Restricts keep right) (asked : Resolver)
    (front : left.queue = visit :: rest) (dropped : keep visit.item = false)
    (rejected : left.plan.acceptsItem visit.item = false) :
    ∃ next, left.step asked = .going next ∧ next.Restricts keep right := by
  have queue : right.queue = rest.filter (keep ·.item) := by
    rw [same.queue, front, List.filter_cons_of_neg (by simp [dropped])]
  unfold Walk.step
  rw [front]
  dsimp only
  split
  next => exact ⟨_, rfl, { same with queue := queue }⟩
  next =>
    rw [if_pos (by simp [rejected])]
    exact ⟨_, rfl, { same with plan := same.plan.setAside_left dropped, queue := queue }⟩

/-- Walks that are alike come to ends that are alike, if the one drops only what its filter
rejects. -/
theorem Restricts.ends {attempt : Attempt Unit} (same : left.Restricts keep right)
    (resolvers : asked.Restricts keep askedToo)
    (dropped : ∀ walk, Reaches asked left walk → ∀ visit ∈ walk.queue, keep visit.item = false →
      walk.plan.acceptsItem visit.item = false)
    (ends : Ends asked left attempt) :
    ∃ other, Ends askedToo right other ∧ attempt.Restricts keep other := by
  induction ends generalizing right with
  | @stop walk attempt stopped =>
      have kept : ∀ visit rest, walk.queue = visit :: rest → keep visit.item = true := by
        intro visit rest front
        by_contra unkept
        have dropped := dropped walk .refl visit (front ▸ List.mem_cons_self)
          (Bool.eq_false_iff.mpr unkept)
        obtain ⟨next, goes, _⟩ :=
          same.step_left asked front (Bool.eq_false_iff.mpr unkept) dropped
        cases stopped.symm.trans goes
      have progress := same.step resolvers kept
      rw [stopped] at progress
      generalize stepped : right.step askedToo = other at progress
      cases progress with
      | stopped attempts => exact ⟨_, .stop stepped, attempts⟩
  | @go walk next attempt goes _ ih =>
      have moves := Moves.of_step goes
      have later : ∀ other, Reaches asked next other → ∀ visit ∈ other.queue,
          keep visit.item = false → other.plan.acceptsItem visit.item = false :=
        fun other reaches => dropped other (.head moves reaches)
      by_cases kept : ∀ visit rest, walk.queue = visit :: rest → keep visit.item = true
      · have progress := same.step resolvers kept
        rw [goes] at progress
        generalize stepped : right.step askedToo = other at progress
        cases progress with
        | going walks =>
            obtain ⟨other, ends, attempts⟩ := ih walks later
            exact ⟨other, .go stepped ends, attempts⟩
      · obtain ⟨visit, rest, front, unkept⟩ : ∃ visit rest, walk.queue = visit :: rest ∧
            keep visit.item = false := by simpa using kept
        obtain ⟨other, goesToo, walks⟩ := same.step_left asked front unkept
          (dropped walk .refl visit (front ▸ List.mem_cons_self) unkept)
        cases goes.symm.trans goesToo
        exact ih walks later

end Walk

/-! ## Requests -/

namespace Plan

variable {left right : Plan} {asked askedToo : Resolver}

/-- Plans that are alike take requests that are alike with results that are. -/
theorem Restricts.take (same : left.Restricts keep right)
    (resolvers : asked.Restricts keep askedToo) (submission : Submission)
    (dropped : ∀ walk, Walk.Reaches asked
      { plan := left.prepare submission, queue := submission.visits } walk →
        ∀ visit ∈ walk.queue, keep visit.item = false → walk.plan.acceptsItem visit.item = false) :
    (left.take asked submission).Restricts keep
      (right.take askedToo (submission.restrict keep)) := by
  cases shut : left.isFinalized with
  | true =>
      rw [take_of_isFinalized shut, take_of_isFinalized (same.isFinalized.trans shut)]
      exact ⟨rfl, same⟩
  | false =>
      rw [take_eq shut, take_eq (same.isFinalized.trans shut)]
      have walks : Walk.Restricts keep
          { plan := left.prepare submission, queue := submission.visits }
          { plan := right.prepare (submission.restrict keep),
            queue := (submission.restrict keep).visits } :=
        ⟨same.prepare submission, submission.visits_restrict, rfl, rfl,
          fun _ inside => absurd inside List.not_mem_nil⟩
      obtain ⟨other, ends, attempts⟩ :=
        walks.ends resolvers dropped ((left.prepare submission).ends_expand asked submission.visits)
      rw [ends.unique (ends_expand askedToo _ _)]
      exact attempts

end Plan

end TaskPlanner
