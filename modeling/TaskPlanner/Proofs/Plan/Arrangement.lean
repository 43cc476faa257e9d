import Mathlib.Data.List.Sort
import Mathlib.Data.String.Basic
import TaskPlanner.WorkItem

/-! The order on items is total, so a set of items has one canonical list. -/

set_option autoImplicit false

namespace TaskPlanner.WorkItem

variable {left middle right item : WorkItem} {items others : List WorkItem}

/-! ## The order on items -/

theorem precedes_delegated_iff {leftBuild left rightBuild right : String} :
    (delegated leftBuild left).precedes (delegated rightBuild right) = true ↔
      leftBuild < rightBuild ∨ leftBuild = rightBuild ∧ left < right := by
  simp [precedes]

theorem not_precedes_self (item : WorkItem) : item.precedes item ≠ true := by
  cases item with
  | task name => simp [precedes]
  | delegated build name => simp [precedes]
  | marker ordinal => simp [precedes]

theorem precedes_trans (first : left.precedes middle = true)
    (second : middle.precedes right = true) : left.precedes right = true := by
  cases left with
  | task left =>
      cases right with
      | task right =>
          cases middle with
          | task middle =>
              simp only [precedes, decide_eq_true_eq] at first second ⊢
              exact first.trans second
          | delegated => cases second
          | marker => cases second
      | delegated => rfl
      | marker => rfl
  | delegated leftBuild left =>
      cases middle with
      | task => cases first
      | delegated middleBuild middle =>
          cases right with
          | task => cases second
          | delegated rightBuild right =>
              rw [precedes_delegated_iff] at first second ⊢
              rcases first with less | ⟨rfl, less⟩
              · rcases second with further | ⟨rfl, _⟩
                · exact .inl (less.trans further)
                · exact .inl less
              · rcases second with further | ⟨rfl, further⟩
                · exact .inl further
                · exact .inr ⟨rfl, less.trans further⟩
          | marker => rfl
      | marker =>
          cases right with
          | task => cases second
          | delegated => cases second
          | marker => rfl
  | marker left =>
      cases middle with
      | task => cases first
      | delegated => cases first
      | marker middle =>
          cases right with
          | task => cases second
          | delegated => cases second
          | marker right =>
              simp only [precedes, decide_eq_true_eq] at first second ⊢
              exact first.trans second

/-- Of two items one precedes the other. -/
theorem precedes_of_not_precedes (different : left ≠ right)
    (unordered : left.precedes right ≠ true) : right.precedes left = true := by
  cases left with
  | task left =>
      cases right with
      | task right =>
          simp only [precedes, ne_eq, decide_eq_true_eq, not_lt] at unordered ⊢
          exact lt_of_le_of_ne unordered fun same => different (by rw [same])
      | delegated => exact absurd rfl unordered
      | marker => exact absurd rfl unordered
  | delegated leftBuild left =>
      cases right with
      | task => rfl
      | delegated rightBuild right =>
          rw [ne_eq, precedes_delegated_iff, not_or, not_and, not_lt, not_lt] at unordered
          rw [precedes_delegated_iff]
          obtain ⟨builds, names⟩ := unordered
          rcases lt_or_eq_of_le builds with less | rfl
          · exact .inl less
          · refine .inr ⟨rfl, lt_of_le_of_ne (names rfl) fun same => different (by rw [same])⟩
      | marker => exact absurd rfl unordered
  | marker left =>
      cases right with
      | task => rfl
      | delegated => rfl
      | marker right =>
          simp only [precedes, ne_eq, decide_eq_true_eq, not_lt] at unordered ⊢
          exact lt_of_le_of_ne unordered fun same => different (by rw [same])

/-! ## Canonical lists -/

/-- The items come in order, and none comes twice. -/
abbrev Ascending (items : List WorkItem) : Prop :=
  items.Pairwise fun left right => left.precedes right = true

theorem ascending_insertDistinct (ascending : Ascending items) (item : WorkItem) :
    Ascending (insertDistinct item items) := by
  induction items with
  | nil => exact List.pairwise_singleton _ _
  | cons head rest ih =>
      obtain ⟨least, behind⟩ := List.pairwise_cons.mp ascending
      unfold insertDistinct
      by_cases same : item = head
      · rw [if_pos same]
        exact ascending
      · rw [if_neg same]
        by_cases before : item.precedes head = true
        · rw [if_pos before]
          refine List.pairwise_cons.mpr ⟨fun other member => ?_, ascending⟩
          rcases List.mem_cons.mp member with rfl | later
          · exact before
          · exact precedes_trans before (least other later)
        · rw [if_neg before]
          refine List.pairwise_cons.mpr ⟨fun other member => ?_, ih behind⟩
          rcases mem_insertDistinct.mp member with rfl | later
          · exact precedes_of_not_precedes same before
          · exact least other later

theorem ascending_arranged (items : List WorkItem) : Ascending (arranged items) := by
  induction items with
  | nil => exact .nil
  | cons item rest ih => exact ascending_insertDistinct ih item

/-- Lists in order are equal if the same items occur. -/
theorem Ascending.eq_of_mem_iff (ascending : Ascending items) (ascendingToo : Ascending others)
    (same : ∀ item, item ∈ items ↔ item ∈ others) : items = others := by
  have irreflexive : Std.Irrefl fun left right : WorkItem => left.precedes right = true :=
    ⟨not_precedes_self⟩
  have antisymmetric : Std.Antisymm fun left right : WorkItem => left.precedes right = true :=
    ⟨fun left _ first second => absurd (precedes_trans first second) (not_precedes_self left)⟩
  exact List.Pairwise.eq_of_mem_iff ascending ascendingToo fun {item} => same item

/-- The canonical list depends on nothing but which items occur. -/
theorem arranged_eq_iff :
    arranged items = arranged others ↔ ∀ item, item ∈ items ↔ item ∈ others := by
  constructor
  · intro same item
    rw [← mem_arranged, same, mem_arranged]
  · intro same
    refine (ascending_arranged items).eq_of_mem_iff (ascending_arranged others) fun item => ?_
    rw [mem_arranged, mem_arranged, same]

theorem arranged_filter (keep : WorkItem → Bool) (items : List WorkItem) :
    arranged (items.filter keep) = (arranged items).filter keep := by
  refine (ascending_arranged _).eq_of_mem_iff ((ascending_arranged items).filter keep)
    fun item => ?_
  simp only [mem_arranged, List.mem_filter]

end TaskPlanner.WorkItem
