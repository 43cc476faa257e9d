import TaskPlanner.Plan

/-!
# Surveys

A survey of a plan shows every item that the plan knows something about: the items it
lists, and all that these refer to, directly or through others.
-/

set_option autoImplicit false

namespace TaskPlanner

def Relations.mentioned (relations : Relations) : List WorkItem :=
  relations.hardSuccessors ++ relations.dependencies ++ relations.finalizers

namespace Catalog

/-- `source` refers to `target` directly or through others, or is `target` itself. -/
inductive RefersTo (catalog : Catalog) : WorkItem → WorkItem → Prop where
  | refl (item : WorkItem) : RefersTo catalog item item
  | step {source middle target : WorkItem} :
      RefersTo catalog source middle →
      target ∈ (catalog.node middle).relations.mentioned → RefersTo catalog source target

theorem RefersTo.behind {catalog : Catalog} {source middle target : WorkItem}
    (refers : catalog.RefersTo middle target)
    (direct : middle ∈ (catalog.node source).relations.mentioned) :
    catalog.RefersTo source target := by
  induction refers with
  | refl => exact .step (.refl source) direct
  | step _ next ih => exact .step ih next

/-- The items of `found` and, for at most `rounds` rounds, those that they refer to. -/
def referred (catalog : Catalog) : Nat → List WorkItem → List WorkItem
  | 0, found => found
  | rounds + 1, found =>
      let mentioned := found.flatMap fun item => (catalog.node item).relations.mentioned
      let fresh := mentioned.eraseDups.filter (· ∉ found)
      if fresh.isEmpty then found else referred catalog rounds (found ++ fresh)

/-- Only items that one of `found` refers to are found. -/
theorem refersTo_of_mem_referred {catalog : Catalog} {rounds : Nat} {found : List WorkItem}
    {item : WorkItem} (member : item ∈ catalog.referred rounds found) :
    ∃ source ∈ found, catalog.RefersTo source item := by
  induction rounds generalizing found with
  | zero => exact ⟨item, member, .refl item⟩
  | succ rounds ih =>
      unfold referred at member
      simp only at member
      split at member
      · exact ⟨item, member, .refl item⟩
      · obtain ⟨source, present, refers⟩ := ih member
        rcases List.mem_append.mp present with old | new
        · exact ⟨source, old, refers⟩
        · have mentioned := List.mem_eraseDups.mp (List.mem_filter.mp new).1
          obtain ⟨origin, known, direct⟩ := List.mem_flatMap.mp mentioned
          exact ⟨origin, known, refers.behind direct⟩

end Catalog

/-- The items of a survey, in the order of the catalog. An item that is not listed is found
in as many rounds as it takes references, so the catalog's size is enough of them. -/
def Plan.surveyed (plan : Plan) : List WorkItem :=
  let found := plan.catalog.referred plan.catalog.size plan.listed
  plan.catalog.items.filter (· ∈ found)

end TaskPlanner
