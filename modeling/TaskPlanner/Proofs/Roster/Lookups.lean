import Mathlib.Data.List.Nodup
import TaskPlanner.Plan
import TaskPlanner.Roster

/-! A roster answers as the set of its items does, whatever is done to it: its list and its tables
stay in step. That entries leave the tables by the names of their tasks is right because the numbers
come from one catalog, which gives no item two of them. -/

set_option autoImplicit false

namespace TaskPlanner

/-! ## Numbers -/

namespace Catalog

variable {catalog : Catalog} {item other : WorkItem} {number : Nat}

theorem numberFor_eq_idxOf (catalog : Catalog) (item : WorkItem) :
    catalog.numberFor item = catalog.items.idxOf item := by
  have size : catalog.size = catalog.items.length := (List.length_map _).symm
  rw [numberFor, number?, size]
  exact List.findIdx_eq_getD_findIdx?.symm

theorem items_numberFor (listed : item ∈ catalog.items) :
    catalog.items[catalog.numberFor item]? = some item := by
  rw [numberFor_eq_idxOf]
  exact List.getElem?_idxOf listed

theorem eq_of_numberFor_eq (listed : item ∈ catalog.items)
    (same : catalog.numberFor item = catalog.numberFor other) : item = other := by
  rw [numberFor_eq_idxOf, numberFor_eq_idxOf] at same
  exact (List.idxOf_inj listed).mp same

theorem numberFor_of_getElem? (distinct : catalog.items.Nodup)
    (named : catalog.items[number]? = some item) : catalog.numberFor item = number := by
  obtain ⟨bound, rfl⟩ := List.getElem?_eq_some_iff.mp named
  rw [numberFor_eq_idxOf]
  exact distinct.idxOf_getElem number bound

/-- An item keeps its number, and gets the number that was meant for it. -/
theorem numberFor_update (known : other ∈ catalog.items ∨ other = item) (change : Node → Node) :
    (catalog.update item change).numberFor other = catalog.numberFor other := by
  rw [numberFor_eq_idxOf, numberFor_eq_idxOf, items_update]
  split
  next => rfl
  next absent =>
    rcases known with listed | rfl
    · exact List.idxOf_append_of_mem listed
    · simp [List.idxOf_append_of_notMem absent, List.idxOf_eq_length absent]

theorem nodup_items_update (distinct : catalog.items.Nodup) (item : WorkItem)
    (change : Node → Node) : (catalog.update item change).items.Nodup := by
  rw [items_update]
  split
  next => exact distinct
  next absent =>
    simpa [List.nodup_append] using ⟨distinct, fun other listed same => absent (same ▸ listed)⟩

end Catalog

/-! ## Tables -/

namespace Roster

variable {roster : Roster}

theorem lookup_cons_eq (name : String) (number : Nat) (tasks : List (String × Nat))
    (other : String) :
    ((name, number) :: tasks).lookup other =
      if other = name then some number else tasks.lookup other := by
  rw [List.lookup_cons]
  by_cases same : other = name
  · rw [if_pos same, same, beq_self_eq_true]
  · rw [if_neg same, beq_false_of_ne same]

theorem lookup_filter_ne (tasks : List (String × Nat)) (name other : String) :
    (tasks.filter (·.1 ≠ name)).lookup other =
      if other = name then none else tasks.lookup other := by
  induction tasks with
  | nil => simp
  | cons task rest ih =>
      obtain ⟨head, number⟩ := task
      by_cases gone : head = name
      · subst gone
        rw [List.filter_cons_of_neg (by simp), ih, lookup_cons_eq]
        by_cases same : other = head <;> simp [same]
      · rw [List.filter_cons_of_pos (by simpa using gone), lookup_cons_eq, lookup_cons_eq, ih]
        by_cases same : other = head <;> simp [same, gone]

theorem lookup_add {number : Nat} (unlisted : roster.contains number = false) (item : WorkItem)
    (name : String) : (roster.add number item).2.tasks.lookup name =
      if item = .task name then some number else roster.tasks.lookup name := by
  unfold add
  rw [unlisted]
  cases item with
  | task other =>
      show ((other, number) :: roster.tasks.filter (·.1 ≠ other)).lookup name = _
      rw [lookup_cons_eq, lookup_filter_ne]
      by_cases same : name = other
      · simp [same]
      · simp [same, Ne.symm same]
  | delegated => rfl
  | marker => rfl

theorem entries_strikeAll (removed : List RosterEntry) (roster : Roster) :
    (removed.foldl strike roster).entries = roster.entries := by
  induction removed generalizing roster with
  | nil => rfl
  | cons entry rest ih => exact ih (roster.strike entry)

theorem mem_members_strikeAll (removed : List RosterEntry) (roster : Roster) (number : Nat) :
    number ∈ (removed.foldl strike roster).members ↔
      number ∈ roster.members ∧ number ∉ removed.map (·.number) := by
  induction removed generalizing roster with
  | nil => simp
  | cons entry rest ih =>
      rw [List.foldl_cons, ih, List.map_cons, List.mem_cons, not_or, ← and_assoc]
      simp [strike]

theorem lookup_strike (roster : Roster) (entry : RosterEntry) (name : String) :
    (roster.strike entry).tasks.lookup name =
      if entry.task? = some name then none else roster.tasks.lookup name := by
  unfold strike
  cases entry.task? with
  | none => rfl
  | some struck =>
      dsimp only
      rw [lookup_filter_ne]
      simp only [Option.some.injEq, eq_comm]

/-- The names of struck entries are found no more, and all others as before. -/
theorem lookup_strikeAll (removed : List RosterEntry) (roster : Roster) (name : String) :
    (removed.foldl strike roster).tasks.lookup name =
      if some name ∈ removed.map (·.task?) then none else roster.tasks.lookup name := by
  induction removed generalizing roster with
  | nil => rfl
  | cons entry rest ih =>
      rw [List.foldl_cons, ih, lookup_strike, List.map_cons]
      -- A name may be struck twice, so the cases are split on the later entries first.
      by_cases later : some name ∈ rest.map (·.task?)
      · rw [if_pos later, if_pos (List.mem_cons_of_mem _ later)]
      · rw [if_neg later]
        refine if_congr ?_ rfl rfl
        rw [List.mem_cons, or_iff_left later, eq_comm]

theorem keepFirst_eq (roster : Roster) (count : Nat) :
    roster.keepFirst count = ((roster.entries.drop count).map (·.number),
      (roster.entries.drop count).foldl strike
        { roster with entries := roster.entries.take count }) := by
  unfold keepFirst
  split
  next short =>
    rw [List.drop_eq_nil_of_le short, List.take_of_length_le short]
    rfl
  next => rfl

theorem removed_keepFirst (roster : Roster) (count : Nat) :
    (roster.keepFirst count).1 = roster.numbers.drop count := by
  rw [keepFirst_eq, numbers, List.map_drop]

theorem entries_keepFirst (roster : Roster) (count : Nat) :
    (roster.keepFirst count).2.entries = roster.entries.take count := by
  rw [keepFirst_eq, entries_strikeAll]

theorem numbers_keepFirst (roster : Roster) (count : Nat) :
    (roster.keepFirst count).2.numbers = roster.numbers.take count := by
  rw [numbers, entries_keepFirst, List.map_take, numbers]

theorem mem_members_keepFirst (roster : Roster) (count number : Nat) :
    number ∈ (roster.keepFirst count).2.members ↔
      number ∈ roster.members ∧ number ∉ roster.numbers.drop count := by
  rw [keepFirst_eq, mem_members_strikeAll, List.map_drop, numbers]

theorem lookup_keepFirst (roster : Roster) (count : Nat) (name : String) :
    (roster.keepFirst count).2.tasks.lookup name =
      if some name ∈ (roster.entries.drop count).map (·.task?) then none
      else roster.tasks.lookup name := by
  rw [keepFirst_eq, lookup_strikeAll]

end Roster

/-! ## Registers -/

theorem ItemSet.task?_eq_some_iff {set : ItemSet} {name : String} {item : WorkItem} :
    set.task? name = some item ↔ item = .task name ∧ item ∈ set := by
  unfold task?
  split
  next listed =>
    rw [Option.some.injEq, eq_comm]
    exact (and_iff_left_of_imp fun same => same ▸ listed).symm
  next absent =>
    simp only [reduceCtorEq, false_iff, not_and]
    rintro rfl listed
    exact absent listed

theorem ItemSet.task?_insert (set : ItemSet) (item : WorkItem) (name : String) :
    (set.insert item).task? name = if item = .task name then some item else set.task? name := by
  by_cases same : item = .task name
  · rw [if_pos same, task?_eq_some_iff]
    exact ⟨same, mem_insert.mpr (.inr rfl)⟩
  · rw [if_neg same]
    exact if_congr (mem_insert.trans (or_iff_left (Ne.symm same))) rfl rfl

namespace Register

variable {register : Register} {set : ItemSet} {item : WorkItem}

/-- The roster of the register lists the items of `set` in order, and its tables hold what it
lists. -/
structure Represents (register : Register) (set : ItemSet) : Prop where
  numbered : register.catalog.items.Nodup
  distinct : set.items.Nodup
  mentioned : ∀ item ∈ set, item ∈ register.catalog.items
  entries : register.roster.entries =
    set.items.map fun item => .of (register.catalog.numberFor item) item
  members : ∀ number, number ∈ register.roster.members ↔ number ∈ register.roster.numbers
  tasks : ∀ name, register.roster.tasks.lookup name =
    (set.task? name).map register.catalog.numberFor

theorem represents_nil {catalog : Catalog} (numbered : catalog.items.Nodup) :
    Register.Represents { catalog } {} where
  numbered := numbered
  distinct := List.nodup_nil
  mentioned _ listed := nomatch listed
  entries := rfl
  members _ := Iff.rfl
  tasks _ := rfl

theorem Represents.numbers_eq (represents : register.Represents set) :
    register.roster.numbers = set.items.map register.catalog.numberFor := by
  rw [Roster.numbers, represents.entries, List.map_map]
  rfl

theorem Represents.nodup_numbers (represents : register.Represents set) :
    register.roster.numbers.Nodup := by
  rw [represents.numbers_eq]
  refine represents.distinct.map_on fun item listed other _ same => ?_
  exact Catalog.eq_of_numberFor_eq (represents.mentioned item listed) same

theorem Represents.mem_numbers_iff (represents : register.Represents set) (item : WorkItem) :
    register.catalog.numberFor item ∈ register.roster.numbers ↔ item ∈ set := by
  rw [represents.numbers_eq, List.mem_map]
  constructor
  · rintro ⟨other, listed, same⟩
    rwa [← Catalog.eq_of_numberFor_eq (represents.mentioned other listed) same]
  · exact fun listed => ⟨item, listed, rfl⟩

theorem Represents.update (represents : register.Represents set) (item : WorkItem)
    (change : Node → Node) : (register.update item change).Represents set := by
  have kept : ∀ other ∈ set, (register.catalog.update item change).numberFor other =
      register.catalog.numberFor other := fun other listed =>
    Catalog.numberFor_update (.inl (represents.mentioned other listed)) change
  exact {
    numbered := Catalog.nodup_items_update represents.numbered item change
    distinct := represents.distinct
    mentioned := fun other listed =>
      Catalog.mem_items_update.mpr (.inl (represents.mentioned other listed))
    entries := by
      show register.roster.entries = _
      rw [represents.entries]
      refine List.map_congr_left fun other listed => ?_
      exact congrArg (RosterEntry.of · other) (kept other listed).symm
    members := represents.members
    tasks := fun name => (represents.tasks name).trans <| Option.map_congr fun other found =>
      (kept other (ItemSet.task?_eq_some_iff.mp found).2).symm }

theorem Represents.contains_iff (represents : register.Represents set) (number : Nat) :
    register.roster.contains number = true ↔ number ∈ register.roster.numbers :=
  decide_eq_true_iff.trans (represents.members number)

theorem Represents.contains_numberFor (represents : register.Represents set) (item : WorkItem) :
    register.roster.contains (register.catalog.numberFor item) = decide (item ∈ set) := by
  rw [Bool.eq_iff_iff, represents.contains_iff, represents.mem_numbers_iff, decide_eq_true_iff]

/-- An item of the catalog that is not listed yet gets an entry in the list and in the tables. -/
theorem Represents.list (represents : register.Represents set)
    (known : item ∈ register.catalog.items) (absent : item ∉ set) {number : Nat}
    (own : register.catalog.numberFor item = number) :
    { register with roster := (register.roster.add number item).2 }.Represents
      (set.insert item) := by
  have unlisted : register.roster.contains number = false := by
    rw [← own, represents.contains_numberFor, decide_eq_false absent]
  have items : (set.insert item).items = set.items ++ [item] := by
    rw [ItemSet.insert, if_neg absent]
  have found := Roster.lookup_add unlisted item
  unfold Roster.add at found ⊢
  rw [unlisted] at found ⊢
  exact {
    numbered := represents.numbered
    distinct := ItemSet.nodup_insert represents.distinct item
    mentioned := fun other listed => (ItemSet.mem_insert.mp listed).elim
      (represents.mentioned other) fun same => same ▸ known
    entries := by
      rw [items, List.map_append, ← represents.entries, ← own]
      rfl
    members := fun other => by
      have before := represents.members other
      simp only [Roster.numbers] at before ⊢
      simp [before, RosterEntry.of, or_comm]
    tasks := fun name => by
      refine (found name).trans ?_
      rw [represents.tasks, ItemSet.task?_insert, ← own]
      split <;> rfl }

theorem Represents.add (represents : register.Represents set) (item : WorkItem) :
    (register.add item).1 = decide (item ∉ set) ∧
      (register.add item).2.Represents (set.insert item) := by
  have mentioned := represents.update item id
  have contains := represents.contains_numberFor item
  by_cases listed : item ∈ set
  · rw [decide_eq_true listed] at contains
    have known : register.add item = (false, register.update item id) := by
      unfold Register.add Roster.add
      rw [if_pos contains]
      rfl
    rw [known, ItemSet.insert, if_pos listed]
    exact ⟨by simpa using listed, mentioned⟩
  · refine ⟨?_, mentioned.list (Catalog.mem_items_update.mpr (.inr rfl)) listed
      (Catalog.numberFor_update (.inr rfl) id)⟩
    simp [Register.add, Roster.add, contains, listed]

end Register

/-! ## Cutting back -/

/-- In a list without repetition, what is not cut off stays. -/
theorem mem_take_iff {α : Type} {items : List α} (distinct : items.Nodup) (count : Nat)
    (item : α) : item ∈ items.take count ↔ item ∈ items ∧ item ∉ items.drop count := by
  constructor
  · intro kept
    exact ⟨List.mem_of_mem_take kept,
      List.disjoint_take_drop distinct (Nat.le_refl count) kept⟩
  · rintro ⟨listed, kept⟩
    rw [← List.take_append_drop count items, List.mem_append] at listed
    exact listed.resolve_right kept

theorem ItemSet.task?_keepFirst {set : ItemSet} (distinct : set.items.Nodup) (count : Nat)
    (name : String) : (set.keepFirst count).task? name =
      if .task name ∈ set.beyond count then none else set.task? name := by
  have kept : .task name ∈ set.keepFirst count ↔
      .task name ∈ set ∧ .task name ∉ set.beyond count := mem_take_iff distinct count _
  unfold task?
  by_cases removed : .task name ∈ set.beyond count
  · rw [if_pos removed, if_neg fun stays => (kept.mp stays).2 removed]
  · rw [if_neg removed]
    exact if_congr (kept.trans (and_iff_left removed)) rfl rfl

theorem RosterEntry.task?_of_eq_some_iff {number : Nat} {item : WorkItem} {name : String} :
    (RosterEntry.of number item).task? = some name ↔ item = .task name :=
  WorkItem.taskName?_eq_some_iff

namespace Register

variable {register : Register} {set : ItemSet} {item : WorkItem}

/-- The register is cut back as the set is, and tells what is cut off. -/
theorem Represents.keepFirst (represents : register.Represents set) (count : Nat) :
    (register.keepFirst count).1 = (set.beyond count).map register.catalog.numberFor ∧
      (register.keepFirst count).2.Represents (set.keepFirst count) := by
  have entries : (register.roster.keepFirst count).2.entries = (set.keepFirst count).items.map
      fun item => .of (register.catalog.numberFor item) item := by
    rw [Roster.entries_keepFirst, represents.entries, ← List.map_take]
    rfl
  have named (name : String) : some name ∈ (register.roster.entries.drop count).map (·.task?) ↔
      .task name ∈ set.beyond count := by
    rw [represents.entries, ← List.map_drop]
    simp only [List.map_map, List.mem_map, Function.comp_apply,
      RosterEntry.task?_of_eq_some_iff, exists_eq_right]
    rfl
  constructor
  · show (register.roster.keepFirst count).1 = _
    rw [Roster.removed_keepFirst, represents.numbers_eq, ← List.map_drop]
    rfl
  · exact {
      numbered := represents.numbered
      distinct := represents.distinct.sublist (List.take_sublist count _)
      mentioned := fun item kept => represents.mentioned item (List.mem_of_mem_take kept)
      entries := entries
      members := fun number => by
        show number ∈ (register.roster.keepFirst count).2.members ↔
          number ∈ (register.roster.keepFirst count).2.numbers
        rw [Roster.mem_members_keepFirst, Roster.numbers_keepFirst, represents.members]
        exact (mem_take_iff represents.nodup_numbers count number).symm
      tasks := fun name => by
        show (register.roster.keepFirst count).2.tasks.lookup name = _
        rw [Roster.lookup_keepFirst, represents.tasks, if_congr (named name) rfl rfl,
          ItemSet.task?_keepFirst represents.distinct]
        split <;> rfl }

/-! ## Answers -/

theorem Represents.find_eq_ok_iff (represents : register.Represents set) (name : String)
    (number : Nat) : register.roster.find name = .ok number ↔
      number ∈ register.roster.numbers ∧ register.catalog.items[number]? = some (.task name) := by
  unfold Roster.find
  rw [represents.tasks]
  constructor
  · intro found
    cases present : set.task? name with
    | none => simp [present] at found
    | some item =>
        obtain ⟨rfl, listed⟩ := ItemSet.task?_eq_some_iff.mp present
        rw [present] at found
        cases found
        exact ⟨(represents.mem_numbers_iff _).mpr listed,
          Catalog.items_numberFor (represents.mentioned _ listed)⟩
  · rintro ⟨listed, named⟩
    have own := Catalog.numberFor_of_getElem? represents.numbered named
    rw [← own, represents.mem_numbers_iff] at listed
    rw [ItemSet.task?_eq_some_iff.mpr ⟨rfl, listed⟩, ← own]
    rfl

theorem Represents.find_eq_error_iff (represents : register.Represents set) (name : String) :
    register.roster.find name = .error (.notPlanned name) ↔
      ∀ number ∈ register.roster.numbers, register.catalog.items[number]? ≠ some (.task name) := by
  constructor
  · intro missed number listed named
    have found := (represents.find_eq_ok_iff name number).mpr ⟨listed, named⟩
    rw [missed] at found
    cases found
  · intro unlisted
    cases result : register.roster.find name with
    | error error =>
        unfold Roster.find at result
        split at result
        · cases result
        · exact result.symm
    | ok number =>
        obtain ⟨listed, named⟩ := (represents.find_eq_ok_iff name number).mp result
        exact absurd named (unlisted number listed)

theorem Represents.taskNames_eq (represents : register.Represents set) :
    register.roster.taskNames = set.taskNames := by
  rw [Roster.taskNames, represents.entries, List.filterMap_map]
  rfl

theorem Represents.publicSize_eq (represents : register.Represents set) :
    register.roster.publicSize = set.publicSize := by
  rw [Roster.publicSize, represents.entries, List.countP_map]
  rfl

theorem Represents.publicSize_eq_countP (represents : register.Represents set) :
    register.roster.publicSize = register.roster.numbers.countP fun number =>
      register.catalog.items[number]?.any (!·.isMarker) := by
  rw [represents.publicSize_eq, represents.numbers_eq, List.countP_map]
  refine List.countP_congr fun item listed => ?_
  simp [WorkItem.isPublic, Catalog.items_numberFor (represents.mentioned item listed)]

/-- Behind a cut, what is cut off is not found any more, and what is left is found as before. -/
theorem Represents.lookups_keepFirst (represents : register.Represents set) (count : Nat) :
    let removed := (register.roster.keepFirst count).1
    let kept := (register.roster.keepFirst count).2
    (∀ number ∈ removed, kept.contains number = false ∧ ∀ name,
      register.catalog.items[number]? = some (.task name) →
        kept.find name = .error (.notPlanned name)) ∧
    ∀ number ∈ kept.numbers, kept.contains number = true ∧ ∀ name,
      register.catalog.items[number]? = some (.task name) → kept.find name = .ok number := by
  intro removed kept
  have shortened : (register.keepFirst count).2.Represents _ := (represents.keepFirst count).2
  have gone : ∀ number ∈ removed, number ∉ kept.numbers := by
    intro number cut stays
    rw [Roster.numbers_keepFirst] at stays
    rw [show removed = _ from Roster.removed_keepFirst _ _] at cut
    exact ((mem_take_iff represents.nodup_numbers count number).mp stays).2 cut
  constructor
  · intro number cut
    constructor
    · rw [Bool.eq_false_iff, ne_eq]
      exact fun contained => gone number cut ((shortened.contains_iff number).mp contained)
    · intro name named
      refine (shortened.find_eq_error_iff name).mpr fun other stays same => ?_
      -- The catalog gives the task one number, so what is left would be what is cut off.
      have own := Catalog.numberFor_of_getElem? represents.numbered named
      have also := Catalog.numberFor_of_getElem? represents.numbered same
      rw [← also, own] at stays
      exact gone number cut stays
  · intro number stays
    exact ⟨(shortened.contains_iff number).mpr stays, fun name named =>
      (shortened.find_eq_ok_iff name number).mpr ⟨stays, named⟩⟩

/-! ## Whole runs -/

/-- What can be done to a register. -/
inductive Call where
  | update (item : WorkItem) (change : Node → Node)
  | add (item : WorkItem)
  | keepFirst (count : Nat)
  | clear

def perform (register : Register) : Call → Register
  | .update item change => register.update item change
  | .add item => (register.add item).2
  | .keepFirst count => (register.keepFirst count).2
  | .clear => register.clear

/-- What calls make of an empty register. -/
def ofCalls (calls : List Call) : Register := calls.foldl perform {}

end Register

/-- What a call makes of the set of the listed items. -/
def ItemSet.perform (set : ItemSet) : Register.Call → ItemSet
  | .update _ _ => set
  | .add item => set.insert item
  | .keepFirst count => set.keepFirst count
  | .clear => {}

def ItemSet.ofCalls (calls : List Register.Call) : ItemSet := calls.foldl perform {}

namespace Register

variable {register : Register} {set : ItemSet}

theorem Represents.perform (represents : register.Represents set) (call : Call) :
    (register.perform call).Represents (set.perform call) := by
  cases call with
  | update item change => exact represents.update item change
  | add item => exact (represents.add item).2
  | keepFirst count => exact (represents.keepFirst count).2
  | clear => exact represents_nil represents.numbered

theorem Represents.foldl (represents : register.Represents set) (calls : List Call) :
    (calls.foldl Register.perform register).Represents (calls.foldl ItemSet.perform set) := by
  induction calls generalizing register set with
  | nil => exact represents
  | cons call rest ih => exact ih (represents.perform call)

theorem represents_ofCalls (calls : List Call) :
    (ofCalls calls).Represents (ItemSet.ofCalls calls) := by
  have empty : ({} : Register).Represents {} := represents_nil List.nodup_nil
  exact empty.foldl calls

/-- Whatever was done to a register, the list of its roster and the tables say the same. No number
is listed twice; the listed numbers are those that the roster contains; a name is found if the
number of its task is listed, and otherwise reported; and the public size counts the listed items
that are no markers. A cut leaves the first entries and tells the others, both in order; the
lookups of what is left succeed, and those of what is cut off fail. -/
theorem lookups_in_step (calls : List Call) :
    let register := ofCalls calls
    let roster := register.roster
    roster.numbers.Nodup ∧
    (∀ number, roster.contains number = true ↔ number ∈ roster.numbers) ∧
    (∀ name number, roster.find name = .ok number ↔
      number ∈ roster.numbers ∧ register.catalog.items[number]? = some (.task name)) ∧
    (∀ name, roster.find name = .error (.notPlanned name) ↔
      ∀ number ∈ roster.numbers, register.catalog.items[number]? ≠ some (.task name)) ∧
    (roster.publicSize = roster.numbers.countP fun number =>
      register.catalog.items[number]?.any (!·.isMarker)) ∧
    ∀ count,
      let removed := (roster.keepFirst count).1
      let kept := (roster.keepFirst count).2
      kept.entries = roster.entries.take count ∧ removed = roster.numbers.drop count ∧
      (∀ number ∈ removed, kept.contains number = false ∧ ∀ name,
        register.catalog.items[number]? = some (.task name) →
          kept.find name = .error (.notPlanned name)) ∧
      ∀ number ∈ kept.numbers, kept.contains number = true ∧ ∀ name,
        register.catalog.items[number]? = some (.task name) → kept.find name = .ok number := by
  intro register roster
  have represents : register.Represents (ItemSet.ofCalls calls) := represents_ofCalls calls
  exact ⟨represents.nodup_numbers, represents.contains_iff, represents.find_eq_ok_iff,
    represents.find_eq_error_iff, represents.publicSize_eq_countP, fun count =>
      ⟨roster.entries_keepFirst count, roster.removed_keepFirst count,
        represents.lookups_keepFirst count⟩⟩

/-- The package was cut off once and is listed again, behind a marker and under its old number. -/
theorem lookups_in_step_package :
    let register := ofCalls [.add (.task "compile"), .add (.delegated "lib" "jar"),
      .add (.task "package"), .keepFirst 2, .add (.marker 1), .add (.task "package")]
    let kept := (register.roster.keepFirst 3).2
    register.roster.numbers = [0, 1, 3, 2] ∧ register.roster.publicSize = 3 ∧
      register.roster.find "package" = .ok 2 ∧ (register.roster.keepFirst 3).1 = [2] ∧
      kept.contains 3 = true ∧ kept.find "compile" = .ok 0 ∧
      kept.find "package" = .error (.notPlanned "package") := by
  intro register kept
  obtain ⟨_, _, finds, _, publicSize, cut⟩ := lookups_in_step [.add (.task "compile"),
    .add (.delegated "lib" "jar"), .add (.task "package"), .keepFirst 2, .add (.marker 1),
    .add (.task "package")]
  obtain ⟨_, removed, gone, stays⟩ := cut 3
  exact ⟨rfl, publicSize, (finds "package" 2).mpr ⟨by decide, rfl⟩, removed,
    (stays 3 (by decide)).1, (stays 0 (by decide)).2 "compile" rfl,
    (gone 2 (by decide)).2 "package" rfl⟩

/-- With numbers of two catalogs, a task can be listed twice. The cut that takes one of its entries
takes its name, and the task that is still listed is found no more. -/
example :
    let twice := ((({} : Roster).add 0 (.task "pack")).2.add 1 (.task "pack")).2
    let kept := (twice.keepFirst 1).2
    kept.contains 0 = true ∧ kept.find "pack" = .error (.notPlanned "pack") :=
  ⟨rfl, rfl⟩

end Register

end TaskPlanner
