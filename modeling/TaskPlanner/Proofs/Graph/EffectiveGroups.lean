import Mathlib.Algebra.GroupWithZero.Nat
import Mathlib.Algebra.Order.BigOperators.Group.List
import Mathlib.Algebra.Order.Group.Nat
import TaskPlanner.Proofs.Graph.Linearization

/-! The table of effective groups never puts an item behind its own group or behind the
group of anything that waits for it. `Settles` is the loop that computes the table, as long
as it may take; the step bound of the table is always enough for it. -/

set_option autoImplicit false

namespace TaskPlanner

namespace Node

theorem accepts_iff {group : Ordinal} {current : Option Ordinal} :
    accepts group current = true ↔ ∀ present, current = some present → group < present := by
  cases current <;> simp [accepts]

end Node

namespace GroupTable

variable {graph : Graph} {own : WorkItem → Option Ordinal} {queue : List WorkItem}
  {table : GroupTable} {item before : WorkItem} {group : Ordinal}

theorem find?_insert (table : GroupTable) (item other : WorkItem) (group : Ordinal) :
    (table.insert item group).find? other =
      if other = item then some group else table.find? other := by
  unfold insert find?
  rw [List.lookup_cons]
  by_cases same : other = item
  · simp [same]
  · simp [same, beq_eq_false_iff_ne.mpr same]

theorem find?_insertAll (table : GroupTable) (items : List WorkItem) (other : WorkItem)
    (group : Ordinal) :
    (table.insertAll items group).find? other =
      if other ∈ items then some group else table.find? other := by
  induction items generalizing table with
  | nil => simp [insertAll]
  | cons item rest ih =>
      have step := ih (table.insert item group)
      rw [find?_insert] at step
      rw [show table.insertAll (item :: rest) group =
        (table.insert item group).insertAll rest group from rfl, step]
      by_cases later : other ∈ rest
      · simp [later]
      · by_cases here : other = item <;> simp [later, here]

/-- Enter the own group of an item, if it has one. -/
def insertOwn (own : WorkItem → Option Ordinal) (table : GroupTable) (item : WorkItem) :
    GroupTable :=
  (own item).elim table (table.insert item)

theorem ofOwn_eq_foldl (own : WorkItem → Option Ordinal) (items : List WorkItem) :
    ofOwn own items = items.foldl (insertOwn own) {} := by
  unfold ofOwn insertOwn
  congr 1
  funext table item
  cases own item <;> rfl

theorem find?_insertOwn (own : WorkItem → Option Ordinal) (table : GroupTable)
    (item other : WorkItem) :
    (insertOwn own table item).find? other =
      if other = item then (own item).or (table.find? item) else table.find? other := by
  unfold insertOwn
  cases own item with
  | none =>
      by_cases same : other = item
      · simp [same]
      · simp [same]
  | some group => exact find?_insert table item other group

private theorem find?_foldl_insertOwn (own : WorkItem → Option Ordinal) (items : List WorkItem)
    (table : GroupTable) (item : WorkItem) :
    (items.foldl (insertOwn own) table).find? item =
      if item ∈ items then (own item).or (table.find? item) else table.find? item := by
  induction items generalizing table with
  | nil => simp
  | cons head rest ih =>
      rw [List.foldl_cons, ih, find?_insertOwn]
      by_cases same : item = head
      · subst same
        cases own item <;> simp
      · simp [same]

theorem find?_ofOwn (own : WorkItem → Option Ordinal) (items : List WorkItem) (item : WorkItem) :
    (ofOwn own items).find? item = if item ∈ items then own item else none := by
  rw [ofOwn_eq_foldl, find?_foldl_insertOwn]
  simp [find?]

/-- The batch found for `item` is `group` or an earlier one. -/
def HasBy (table : GroupTable) (item : WorkItem) (group : Ordinal) : Prop :=
  ∃ found, table.find? item = some found ∧ found ≤ group

theorem HasBy.mono {early late : Ordinal} (has : table.HasBy item early) (order : early ≤ late) :
    table.HasBy item late := by
  obtain ⟨found, lookup, bound⟩ := has
  exact ⟨found, lookup, Fin.le_trans bound order⟩

/-- Groups only become earlier. -/
theorem HasBy.insertAll {bound : Ordinal} (has : table.HasBy item bound)
    {lowered : List WorkItem}
    (accepted : ∀ other ∈ lowered, Node.accepts group (table.find? other) = true) :
    (table.insertAll lowered group).HasBy item bound := by
  obtain ⟨found, lookup, order⟩ := has
  by_cases member : item ∈ lowered
  · have earlier := Node.accepts_iff.mp (accepted item member) found lookup
    exact ⟨group, by rw [find?_insertAll, if_pos member],
      Fin.le_trans (Fin.le_of_lt earlier) order⟩
  · exact ⟨found, by rw [find?_insertAll, if_neg member, lookup], order⟩

/-- What the settling of a table preserves: only the items of the queue may still have
something to hand on. -/
structure Settling (graph : Graph) (own : WorkItem → Option Ordinal) (queue : List WorkItem)
    (table : GroupTable) : Prop where
  grouped : ∀ item ∈ graph.vertices, ∀ group, own item = some group → table.HasBy item group
  found : ∀ item group, table.find? item = some group → group ∈ graph.vertices.filterMap own
  closed : ∀ item group, table.find? item = some group → item ∉ queue →
    ∀ before, graph.Adjacent before item → table.HasBy before group

theorem settling_ofOwn (graph : Graph) (own : WorkItem → Option Ordinal) :
    Settling graph own (graph.vertices.filter fun item => (own item).isSome)
      (ofOwn own graph.vertices) where
  grouped item vertex group own :=
    ⟨group, by rw [find?_ofOwn, if_pos vertex, own], Fin.le_refl _⟩
  found item group lookup := by
    rw [find?_ofOwn] at lookup
    split at lookup
    next vertex => exact List.mem_filterMap.mpr ⟨item, vertex, lookup⟩
    next => cases lookup
  closed item group lookup unqueued := by
    rw [find?_ofOwn] at lookup
    split at lookup
    next vertex => exact absurd (List.mem_filter.mpr ⟨vertex, by simp [lookup]⟩) unqueued
    next => cases lookup

/-- What waits in front of `item` and is not yet known to be needed by the batch `group`. -/
def lowered (graph : Graph) (table : GroupTable) (item : WorkItem) (group : Ordinal) :
    List WorkItem :=
  ((graph.predecessors item).map (·.1)).filter fun before =>
    Node.accepts group (table.find? before)

theorem accepts_of_mem_lowered (member : before ∈ table.lowered graph item group) :
    Node.accepts group (table.find? before) = true :=
  (List.mem_filter.mp member).2

theorem adjacent_of_mem_lowered (member : before ∈ table.lowered graph item group) :
    graph.Adjacent before item :=
  Graph.mem_predecessors.mp (List.mem_filter.mp member).1

theorem Settling.drop (settling : Settling graph own (item :: queue) table)
    (unknown : table.find? item = none) : Settling graph own queue table where
  grouped := settling.grouped
  found := settling.found
  closed other group lookup unqueued := by
    refine settling.closed other group lookup ?_
    intro member
    rcases List.mem_cons.mp member with rfl | inside
    · rw [unknown] at lookup
      cases lookup
    · exact unqueued inside

theorem Settling.hand (settling : Settling graph own (item :: queue) table)
    (known : table.find? item = some group) :
    Settling graph own (queue ++ table.lowered graph item group)
      (table.insertAll (table.lowered graph item group) group) where
  grouped other vertex bound own :=
    (settling.grouped other vertex bound own).insertAll fun _ => accepts_of_mem_lowered
  found other bound lookup := by
    rw [find?_insertAll] at lookup
    split at lookup
    · cases lookup
      exact settling.found item group known
    · exact settling.found other bound lookup
  closed other bound lookup unqueued before adjacent := by
    obtain ⟨notQueued, notLowered⟩ := not_or.mp fun member =>
      unqueued (List.mem_append.mpr member)
    rw [find?_insertAll, if_neg notLowered] at lookup
    by_cases same : other = item
    · subst same
      obtain rfl : group = bound := Option.some.inj (known.symm.trans lookup)
      by_cases lower : before ∈ table.lowered graph other group
      · exact ⟨group, by rw [find?_insertAll, if_pos lower], Fin.le_refl _⟩
      · -- `before` was not lowered because its group was early enough already.
        have refused : ¬ Node.accepts group (table.find? before) = true := fun accepted =>
          lower (List.mem_filter.mpr ⟨Graph.mem_predecessors.mpr adjacent, accepted⟩)
        cases present : table.find? before with
        | none => simp [present, Node.accepts] at refused
        | some current =>
            refine ⟨current, by rw [find?_insertAll, if_neg lower, present], ?_⟩
            simpa [present, Node.accepts] using refused
    · have unvisited : other ∉ item :: queue := by simp [same, notQueued]
      exact (settling.closed other bound lookup unvisited before adjacent).insertAll
        fun _ => accepts_of_mem_lowered

/-! ## The loop -/

/-- The loop without a bound on its steps: from the queue `queue` and the table `table` it ends
with the table `last`. -/
inductive Settles (graph : Graph) : List WorkItem → GroupTable → GroupTable → Prop where
  | done {table : GroupTable} : Settles graph [] table table
  | skip {item : WorkItem} {queue : List WorkItem} {table last : GroupTable} :
      table.find? item = none → Settles graph queue table last →
        Settles graph (item :: queue) table last
  | hand {item : WorkItem} {queue : List WorkItem} {table last : GroupTable} {group : Ordinal} :
      table.find? item = some group →
        Settles graph (queue ++ table.lowered graph item group)
          (table.insertAll (table.lowered graph item group) group) last →
        Settles graph (item :: queue) table last

/-- When the loop ends, nothing is left to hand on. -/
theorem Settles.settling {last : GroupTable} (settles : Settles graph queue table last)
    (settling : Settling graph own queue table) : Settling graph own [] last := by
  induction settles with
  | done => exact settling
  | skip unknown _ ih => exact ih (settling.drop unknown)
  | hand known _ ih => exact ih (settling.hand known)

/-- The loop ends with one table only. -/
theorem Settles.unique {last other : GroupTable} (settles : Settles graph queue table last)
    (again : Settles graph queue table other) : last = other := by
  induction settles with
  | done => cases again; rfl
  | skip unknown _ ih =>
      cases again with
      | skip _ rest => exact ih rest
      | hand known _ => cases unknown.symm.trans known
  | hand known _ ih =>
      cases again with
      | skip unknown _ => cases unknown.symm.trans known
      | hand same rest =>
          cases known.symm.trans same
          exact ih rest

/-! ## The step bound -/

/-- How many of `groups` would still make the group of `item` earlier. -/
def room (groups : List Ordinal) (table : GroupTable) (item : WorkItem) : Nat :=
  (groups.filter fun group => Node.accepts group (table.find? item)).length

/-- How often groups of the vertices can still become earlier. -/
def slack (graph : Graph) (groups : List Ordinal) (table : GroupTable) : Nat :=
  (graph.vertices.map (table.room groups)).sum

theorem slack_insert_lt {groups : List Ordinal} (vertex : item ∈ graph.vertices)
    (known : group ∈ groups)
    (accepted : Node.accepts group (table.find? item) = true) :
    (table.insert item group).slack graph groups < table.slack graph groups := by
  have kept : ∀ other ∈ groups, Node.accepts other (some group) = true →
      Node.accepts other (table.find? item) = true := by
    intro other _ earlier
    refine Node.accepts_iff.mpr fun present lookup => ?_
    exact Fin.lt_trans (Node.accepts_iff.mp earlier group rfl)
      (Node.accepts_iff.mp accepted present lookup)
  have fewer : (table.insert item group).room groups item < table.room groups item := by
    unfold room
    rw [find?_insert, if_pos rfl]
    have narrowed : groups.filter (fun other => Node.accepts other (some group)) =
        (groups.filter fun other => Node.accepts other (table.find? item)).filter
          fun other => Node.accepts other (some group) := by
      rw [List.filter_filter]
      refine List.filter_congr fun other member => ?_
      cases accepts : Node.accepts other (some group) with
      | false => rfl
      | true => rw [kept other member accepts]; rfl
    rw [narrowed, List.length_filter_lt_length_iff_exists]
    exact ⟨group, List.mem_filter.mpr ⟨known, accepted⟩, by simp [Node.accepts]⟩
  refine List.sum_lt_sum _ _ ?_ ⟨item, vertex, fewer⟩
  intro other _
  by_cases same : other = item
  · rw [same]
    exact Nat.le_of_lt fewer
  · unfold room
    rw [find?_insert, if_neg same]

theorem slack_insertAll {groups : List Ordinal} (known : group ∈ groups)
    (lowered : List WorkItem) (table : GroupTable)
    (distinct : lowered.Nodup) (vertices : ∀ item ∈ lowered, item ∈ graph.vertices)
    (accepted : ∀ item ∈ lowered, Node.accepts group (table.find? item) = true) :
    (table.insertAll lowered group).slack graph groups + lowered.length ≤
      table.slack graph groups := by
  induction lowered generalizing table with
  | nil => exact Nat.le_refl _
  | cons item rest ih =>
      obtain ⟨apart, restDistinct⟩ := List.nodup_cons.mp distinct
      have step := slack_insert_lt (vertices item List.mem_cons_self) known
        (accepted item List.mem_cons_self)
      have later := ih (table.insert item group) restDistinct
        (fun other member => vertices other (List.mem_cons_of_mem _ member)) (by
          intro other member
          have different : other ≠ item := fun same => apart (same ▸ member)
          rw [find?_insert, if_neg different]
          exact accepted other (List.mem_cons_of_mem _ member))
      rw [List.length_cons]
      exact Nat.le_trans (Nat.le_of_eq (Nat.add_assoc _ _ _).symm)
        (Nat.le_trans (Nat.succ_le_succ later) step)

/-- Enough steps settle a table: the loop has ended before they are used up. -/
theorem settles_settle (simple : graph.IsSimple)
    (sources : ∀ source target, graph.Adjacent source target → source ∈ graph.vertices)
    (steps : Nat) (queue : List WorkItem) (table : GroupTable)
    (settling : Settling graph own queue table)
    (bound : queue.length + table.slack graph (graph.vertices.filterMap own) ≤ steps) :
    Settles graph queue table (settle graph steps queue table) := by
  induction steps generalizing queue table with
  | zero =>
      obtain rfl : queue = [] := List.eq_nil_of_length_eq_zero (by omega)
      exact .done
  | succ steps ih =>
      cases queue with
      | nil => exact .done
      | cons item queue =>
          rw [List.length_cons] at bound
          unfold settle
          split
          next unknown => exact .skip unknown (ih queue table (settling.drop unknown) (by omega))
          next group known =>
            have handed := slack_insertAll (settling.found item group known)
              (table.lowered graph item group) table
              ((simple.nodup_predecessors item).filter _)
              (fun before member => sources before item (adjacent_of_mem_lowered member))
              (fun before => accepts_of_mem_lowered)
            refine .hand known (ih _ _ (settling.hand known) ?_)
            show (queue ++ table.lowered graph item group).length +
              (table.insertAll (table.lowered graph item group) group).slack graph _ ≤ steps
            rw [List.length_append]
            omega

/-! ## Where groups come from -/

/-- Every group of the table is the own group of its item, or of something that waits for it. -/
def IsFounded (graph : Graph) (own : WorkItem → Option Ordinal) (table : GroupTable) : Prop :=
  ∀ item group, table.find? item = some group →
    ∃ target, (target = item ∨ graph.Reaches item target) ∧ own target = some group

theorem isFounded_ofOwn (graph : Graph) (own : WorkItem → Option Ordinal) :
    IsFounded graph own (ofOwn own graph.vertices) := by
  intro item group lookup
  rw [find?_ofOwn] at lookup
  split at lookup
  · exact ⟨item, .inl rfl, lookup⟩
  · cases lookup

theorem IsFounded.hand (founded : IsFounded graph own table)
    (known : table.find? item = some group) :
    IsFounded graph own (table.insertAll (table.lowered graph item group) group) := by
  intro other found lookup
  rw [find?_insertAll] at lookup
  split at lookup
  next handed =>
    cases lookup
    have adjacent := adjacent_of_mem_lowered handed
    obtain ⟨target, same | reaches, owned⟩ := founded item group known
    · exact ⟨target, .inr (.edge (same ▸ adjacent)), owned⟩
    · exact ⟨target, .inr ((Graph.Reaches.edge adjacent).append reaches), owned⟩
  next => exact founded other found lookup

theorem IsFounded.settle (founded : IsFounded graph own table) (steps : Nat)
    (queue : List WorkItem) : IsFounded graph own (settle graph steps queue table) := by
  induction steps generalizing queue table with
  | zero => exact founded
  | succ steps ih =>
      cases queue with
      | nil => exact founded
      | cons item queue =>
          unfold GroupTable.settle
          split
          next => exact ih founded queue
          next group known => exact ih (founded.hand known) _

end GroupTable

namespace Graph

variable {graph : Graph} {own : WorkItem → Option Ordinal} {item : WorkItem} {group : Ordinal}

/-- The step bound of the table is enough for the loop to end. -/
theorem settles_effectiveGroups (simple : graph.IsSimple)
    (sources : ∀ source target, graph.Adjacent source target → source ∈ graph.vertices)
    (own : WorkItem → Option Ordinal) :
    GroupTable.Settles graph (graph.vertices.filter fun item => (own item).isSome)
      (.ofOwn own graph.vertices) (graph.effectiveGroups own) := by
  refine GroupTable.settles_settle simple sources _ _ _ (GroupTable.settling_ofOwn graph own) ?_
  have rooms : ∀ room ∈ graph.vertices.map
      ((GroupTable.ofOwn own graph.vertices).room (graph.vertices.filterMap own)),
      room ≤ graph.vertices.length := by
    intro room member
    obtain ⟨item, _, rfl⟩ := List.mem_map.mp member
    exact Nat.le_trans (List.length_filter_le _ _) (List.length_filterMap_le _ _)
  have total := List.sum_le_card_nsmul _ _ rooms
  rw [List.length_map, Nat.nsmul_eq_mul] at total
  exact Nat.add_le_add (List.length_filter_le _ _) total

theorem settling_effectiveGroups (simple : graph.IsSimple)
    (sources : ∀ source target, graph.Adjacent source target → source ∈ graph.vertices)
    (own : WorkItem → Option Ordinal) :
    GroupTable.Settling graph own [] (graph.effectiveGroups own) :=
  (settles_effectiveGroups simple sources own).settling (GroupTable.settling_ofOwn graph own)

/-- An item is needed no later than the batch it belongs to. -/
theorem effectiveGroups_hasBy_own (simple : graph.IsSimple)
    (sources : ∀ source target, graph.Adjacent source target → source ∈ graph.vertices)
    (vertex : item ∈ graph.vertices) (grouped : own item = some group) :
    (graph.effectiveGroups own).HasBy item group :=
  (settling_effectiveGroups simple sources own).grouped item vertex group grouped

/-- An item is needed no later than anything that waits for it. -/
theorem effectiveGroups_hasBy_of_adjacent (simple : graph.IsSimple)
    (sources : ∀ source target, graph.Adjacent source target → source ∈ graph.vertices)
    {before : WorkItem} (adjacent : graph.Adjacent before item)
    (found : (graph.effectiveGroups own).find? item = some group) :
    (graph.effectiveGroups own).HasBy before group :=
  (settling_effectiveGroups simple sources own).closed item group found List.not_mem_nil before
    adjacent

/-- An item is needed no later than what waits for it through others. -/
theorem effectiveGroups_hasBy_of_reaches (simple : graph.IsSimple)
    (sources : ∀ source target, graph.Adjacent source target → source ∈ graph.vertices)
    {before : WorkItem} (reaches : graph.Reaches before item)
    (has : (graph.effectiveGroups own).HasBy item group) :
    (graph.effectiveGroups own).HasBy before group := by
  have step : ∀ source target, graph.Adjacent source target →
      (graph.effectiveGroups own).HasBy target group →
        (graph.effectiveGroups own).HasBy source group := by
    rintro source target adjacent ⟨found, lookup, early⟩
    exact (effectiveGroups_hasBy_of_adjacent simple sources adjacent lookup).mono early
  induction reaches with
  | edge adjacent => exact step _ _ adjacent has
  | trans _ adjacent ih => exact ih (step _ _ adjacent has)

/-- The own groups of `item` and of everything that waits for it. -/
def waitingGroups (graph : Graph) (own : WorkItem → Option Ordinal) (item : WorkItem) :
    Set Ordinal :=
  { group | ∃ target, (target = item ∨ graph.Reaches item target) ∧ own target = some group }

/-- An item is needed no later than the batches of all that waits for it. -/
theorem effectiveGroups_hasBy_of_mem_waitingGroups (simple : graph.IsSimple)
    (spanned : graph.IsSpanned) (vertex : item ∈ graph.vertices)
    (waiting : group ∈ graph.waitingGroups own item) :
    (graph.effectiveGroups own).HasBy item group := by
  obtain ⟨target, rfl | reaches, grouped⟩ := waiting
  · exact effectiveGroups_hasBy_own simple spanned.mem_of_adjacent vertex grouped
  · exact effectiveGroups_hasBy_of_reaches simple spanned.mem_of_adjacent reaches
      (effectiveGroups_hasBy_own simple spanned.mem_of_adjacent (spanned.mem_of_reaches reaches) grouped)

/-- An item is only needed by a batch if it, or something that waits for it, belongs to it. -/
theorem exists_own_of_effectiveGroups
    (found : (graph.effectiveGroups own).find? item = some group) :
    ∃ target, (target = item ∨ graph.Reaches item target) ∧ own target = some group :=
  (GroupTable.isFounded_ofOwn graph own).settle _ _ item group found

end Graph

end TaskPlanner
