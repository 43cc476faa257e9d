import TaskPlanner.WorkItem

/-!
# Sets of items in order of insertion

The index of a plan, its requested items, the items its filter rejected and its
finalizers are sets whose order of insertion is visible. The index is more than
that: it looks tasks up by name, counts the items a reader sees, and can be cut
back to its first items.
-/

set_option autoImplicit false

namespace TaskPlanner

/-- Distinct items in the order in which they were inserted. -/
structure ItemSet where
  items : List WorkItem := []
deriving DecidableEq, Repr, Inhabited

namespace ItemSet

instance : Membership WorkItem ItemSet := ⟨fun set item => item ∈ set.items⟩

instance (item : WorkItem) (set : ItemSet) : Decidable (item ∈ set) :=
  inferInstanceAs (Decidable (item ∈ set.items))

def insert (set : ItemSet) (item : WorkItem) : ItemSet :=
  if item ∈ set then set else { items := set.items ++ [item] }

def insertAll (set : ItemSet) (items : List WorkItem) : ItemSet := items.foldl insert set

def size (set : ItemSet) : Nat := set.items.length

def isEmpty (set : ItemSet) : Bool := set.items.isEmpty

def task? (set : ItemSet) (name : String) : Option WorkItem :=
  if WorkItem.task name ∈ set then some (.task name) else none

/-- The names of the tasks of the build at hand, in order of insertion. -/
def taskNames (set : ItemSet) : List String := set.items.filterMap WorkItem.taskName?

def publicSize (set : ItemSet) : Nat := set.items.countP WorkItem.isPublic

def keepFirst (set : ItemSet) (count : Nat) : ItemSet := { items := set.items.take count }

/-- The items behind the first `count`, in order. -/
def beyond (set : ItemSet) (count : Nat) : List WorkItem := set.items.drop count

theorem mem_def {item : WorkItem} {set : ItemSet} : item ∈ set ↔ item ∈ set.items := Iff.rfl

theorem mem_insert {item other : WorkItem} {set : ItemSet} :
    other ∈ set.insert item ↔ other ∈ set ∨ other = item := by
  unfold insert
  split
  · rename_i present
    constructor
    · exact Or.inl
    · rintro (member | rfl)
      · exact member
      · exact present
  · simp [mem_def]

theorem mem_insertAll {set : ItemSet} {items : List WorkItem} {item : WorkItem} :
    item ∈ set.insertAll items ↔ item ∈ set ∨ item ∈ items := by
  induction items generalizing set with
  | nil => simp [insertAll]
  | cons head rest ih =>
      show item ∈ (set.insert head).insertAll rest ↔ _
      rw [ih, mem_insert, List.mem_cons, or_assoc]

theorem nodup_insert {set : ItemSet} (distinct : set.items.Nodup) (item : WorkItem) :
    (set.insert item).items.Nodup := by
  unfold insert
  split
  · exact distinct
  · rename_i absent
    rw [List.nodup_append]
    refine ⟨distinct, by simp, ?_⟩
    intro other member last singleton same
    rw [List.mem_singleton] at singleton
    exact absent (by rw [mem_def, ← singleton, ← same]; exact member)

theorem mem_iff_mem_keepFirst_or_mem_beyond {set : ItemSet} {item : WorkItem}
    (count : Nat) : item ∈ set ↔ item ∈ set.keepFirst count ∨ item ∈ set.beyond count := by
  show item ∈ set.items ↔ item ∈ set.items.take count ∨ item ∈ set.items.drop count
  rw [← List.mem_append, List.take_append_drop]

end ItemSet

end TaskPlanner
