import Mathlib.Algebra.GroupWithZero.Nat
import Mathlib.Data.List.Nodup
import Mathlib.Data.List.Perm.Subperm

/-! Counts and sums over lists that change at one element. They bound the steps of the
worklists of the library. -/

set_option autoImplicit false

namespace TaskPlanner.Counting

variable {α : Type}

/-- A predicate that one element of distinct ones leaves holds once less often. -/
theorem countP_of_leaves [DecidableEq α] {items : List α} (distinct : items.Nodup) {leaver : α}
    (member : leaver ∈ items) {before after : α → Bool} (was : before leaver = true)
    (gone : after leaver = false)
    (others : ∀ other ∈ items, other ≠ leaver → after other = before other) :
    items.countP after + 1 = items.countP before := by
  have split := List.perm_cons_erase member
  have rest : (items.erase leaver).countP after = (items.erase leaver).countP before := by
    refine List.countP_congr fun other inside => ?_
    have different : other ≠ leaver := fun same =>
      distinct.not_mem_erase (same ▸ inside)
    rw [others other (List.mem_of_mem_erase inside) different]
  rw [split.countP_eq after, split.countP_eq before, List.countP_cons_of_neg (by simp [gone]),
    List.countP_cons_of_pos was, rest]

/-- A weighted count does not grow if fewer elements count. -/
theorem sum_filter_le (weight : α → Nat) {before after : α → Bool}
    (fewer : ∀ item, after item = true → before item = true) (items : List α) :
    ((items.filter after).map weight).sum ≤ ((items.filter before).map weight).sum := by
  induction items with
  | nil => exact Nat.le_refl _
  | cons head rest ih =>
      cases kept : after head with
      | true => simpa [kept, fewer head kept] using ih
      | false =>
          cases present : before head with
          | true =>
              simp only [List.filter_cons, kept, present, Bool.false_eq_true, if_false, if_true,
                List.map_cons, List.sum_cons]
              omega
          | false => simpa [kept, present] using ih

/-- A weighted count drops by the weight of what ceases to count. -/
theorem sum_filter_add_le {items : List α} (weight : α → Nat) {before after : α → Bool}
    (fewer : ∀ item, after item = true → before item = true) {leaver : α} (member : leaver ∈ items)
    (was : before leaver = true) (gone : after leaver = false) :
    ((items.filter after).map weight).sum + weight leaver ≤
      ((items.filter before).map weight).sum := by
  obtain ⟨earlier, later, rfl⟩ := List.append_of_mem member
  have front : ((earlier.filter after).map weight).sum ≤ ((earlier.filter before).map weight).sum :=
    sum_filter_le weight fewer earlier
  have back : ((later.filter after).map weight).sum ≤ ((later.filter before).map weight).sum :=
    sum_filter_le weight fewer later
  simp only [List.filter_append, List.filter_cons, was, gone, Bool.false_eq_true, if_false, if_true,
    List.map_append, List.map_cons, List.sum_append, List.sum_cons]
  omega

/-- Counted from the side of distinct keys, nothing is counted that has no key of its own. -/
theorem sum_length_filter_le {κ : Type} [DecidableEq κ] {keys : List κ} (distinct : keys.Nodup)
    (values : List α) (keysOf : α → List κ) :
    (keys.map fun key => (values.filter fun value => decide (key ∈ keysOf value)).length).sum ≤
      (values.flatMap keysOf).length := by
  induction values with
  | nil => simp
  | cons value rest ih =>
      have own : keys.countP (fun key => decide (key ∈ keysOf value)) ≤ (keysOf value).length := by
        rw [List.countP_eq_length_filter]
        refine (List.subperm_of_subset (distinct.filter _) fun key member => ?_).length_le
        exact of_decide_eq_true (List.mem_filter.mp member).2
      have split : ∀ some : List κ,
          (some.map fun key =>
            ((value :: rest).filter fun value => decide (key ∈ keysOf value)).length).sum =
          some.countP (fun key => decide (key ∈ keysOf value)) +
            (some.map fun key =>
              (rest.filter fun value => decide (key ∈ keysOf value)).length).sum := by
        intro some
        induction some with
        | nil => rfl
        | cons key later ih =>
            rw [List.map_cons, List.sum_cons, List.map_cons, List.sum_cons, ih]
            by_cases member : key ∈ keysOf value
            · rw [List.countP_cons_of_pos (by simpa using member),
                List.filter_cons_of_pos (by simpa using member), List.length_cons]
              omega
            · rw [List.countP_cons_of_neg (by simpa using member),
                List.filter_cons_of_neg (by simpa using member)]
              omega
      rw [split, List.flatMap_cons, List.length_append]
      omega

/-- In a list, an order without loops has a first item. -/
theorem exists_first {before : α → α → Prop} {items : List α}
    (irreflexive : ∀ item ∈ items, ¬ before item item)
    (transitive : ∀ first second third, before first second → before second third →
      before first third) (nonempty : items ≠ []) :
    ∃ first ∈ items, ∀ other ∈ items, ¬ before other first := by
  induction items with
  | nil => exact absurd rfl nonempty
  | cons head rest ih =>
      have apart := irreflexive head List.mem_cons_self
      have others := fun item member => irreflexive item (List.mem_cons_of_mem head member)
      rcases eq_or_ne rest [] with rfl | some
      · exact ⟨head, by simp, by simpa using apart⟩
      · obtain ⟨first, member, free⟩ := ih others some
        by_cases behind : before head first
        · refine ⟨head, List.mem_cons_self, List.forall_mem_cons.mpr ⟨apart, ?_⟩⟩
          exact fun other inside earlier =>
            free other inside (transitive other head first earlier behind)
        · exact ⟨first, List.mem_cons_of_mem _ member, List.forall_mem_cons.mpr ⟨behind, free⟩⟩

end TaskPlanner.Counting
