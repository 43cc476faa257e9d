import Mathlib.Order.Bounds.Basic
import TaskPlanner.Proofs.Graph.EffectiveGroups

/-! The table of effective groups has the least group among an item and everything that
waits for it, and no group for an item if none of these has one. Nothing here needs the
graph to be acyclic. -/

set_option autoImplicit false

namespace TaskPlanner.Graph

variable {graph : Graph} {own : WorkItem → Option Ordinal} {item target : WorkItem}
  {group : Ordinal}

theorem mem_waitingGroups_of_effectiveGroups
    (found : (graph.effectiveGroups own).find? item = some group) :
    group ∈ graph.waitingGroups own item :=
  exists_own_of_effectiveGroups found

theorem isLeast_of_effectiveGroups (simple : graph.IsSimple) (spanned : graph.IsSpanned)
    (vertex : item ∈ graph.vertices)
    (found : (graph.effectiveGroups own).find? item = some group) :
    IsLeast (graph.waitingGroups own item) group := by
  refine ⟨mem_waitingGroups_of_effectiveGroups found, fun other waiting => ?_⟩
  obtain ⟨present, lookup, early⟩ :=
    effectiveGroups_hasBy_of_mem_waitingGroups simple spanned vertex waiting
  cases found.symm.trans lookup
  exact early

theorem effectiveGroups_eq_none_iff (simple : graph.IsSimple) (spanned : graph.IsSpanned)
    (vertex : item ∈ graph.vertices) :
    (graph.effectiveGroups own).find? item = none ↔ graph.waitingGroups own item = ∅ := by
  constructor
  · intro missing
    refine Set.eq_empty_iff_forall_notMem.mpr fun group waiting => ?_
    obtain ⟨_, lookup, _⟩ :=
      effectiveGroups_hasBy_of_mem_waitingGroups simple spanned vertex waiting
    cases missing.symm.trans lookup
  · intro empty
    cases found : (graph.effectiveGroups own).find? item with
    | none => rfl
    | some group =>
        have waiting := mem_waitingGroups_of_effectiveGroups found
        rw [empty] at waiting
        cases waiting

theorem effectiveGroups_eq_some_iff (simple : graph.IsSimple) (spanned : graph.IsSpanned)
    (vertex : item ∈ graph.vertices) :
    (graph.effectiveGroups own).find? item = some group ↔
      IsLeast (graph.waitingGroups own item) group := by
  refine ⟨isLeast_of_effectiveGroups simple spanned vertex, fun least => ?_⟩
  obtain ⟨found, lookup, early⟩ :=
    effectiveGroups_hasBy_of_mem_waitingGroups simple spanned vertex least.1
  have late : group ≤ found := least.2 (mem_waitingGroups_of_effectiveGroups lookup)
  rw [lookup, Fin.le_antisymm early late]

/-- On any graph, cyclic or not, and for any groups of its vertices, the loop ends, with the table of
effective groups and with no other. The table has the least group of what waits for a vertex, the
vertex included, and no group exactly for a vertex for which nothing waits that has one. -/
theorem effectiveGroups_isLeast (simple : graph.IsSimple) (spanned : graph.IsSpanned)
    (own : WorkItem → Option Ordinal) :
    (∀ last, GroupTable.Settles graph (graph.vertices.filter fun item => (own item).isSome)
        (.ofOwn own graph.vertices) last ↔ last = graph.effectiveGroups own) ∧
      ∀ item ∈ graph.vertices,
        (∀ group, (graph.effectiveGroups own).find? item = some group ↔
          IsLeast (graph.waitingGroups own item) group) ∧
        ((graph.effectiveGroups own).find? item = none ↔ graph.waitingGroups own item = ∅) := by
  have ends := settles_effectiveGroups simple spanned.mem_of_adjacent own
  refine ⟨fun last => ⟨fun settles => settles.unique ends, fun same => same ▸ ends⟩, ?_⟩
  exact fun item vertex => ⟨fun _ => effectiveGroups_eq_some_iff simple spanned vertex,
    effectiveGroups_eq_none_iff simple spanned vertex⟩

/-- Two items that wait for each other, one that waits for both of them, and one that is alone. -/
def twoInACircle : Graph where
  vertices := [.task "fetch", .task "build", .task "pack", .task "audit"]
  edges := [⟨.task "fetch", .task "build", .dependency⟩, ⟨.task "build", .task "fetch", .finalizes⟩,
    ⟨.task "build", .task "pack", .dependency⟩]

/-- The groups with which `twoInACircle` is looked at: of the two in the circle one is late, and
what waits for them is early. -/
def groupOfTwoInACircle (item : WorkItem) : Option Ordinal :=
  if item = .task "build" then some Ordinal.first.next.next
  else if item = .task "pack" then some Ordinal.first.next
  else none

/-- Both of the items that wait for each other are needed by the early batch, and the one that is
alone is needed by none. -/
theorem effectiveGroups_isLeast_of_circle :
    twoInACircle.Reaches (.task "fetch") (.task "fetch") ∧
      IsLeast (twoInACircle.waitingGroups groupOfTwoInACircle (.task "fetch")) 1 ∧
      IsLeast (twoInACircle.waitingGroups groupOfTwoInACircle (.task "build")) 1 ∧
      twoInACircle.waitingGroups groupOfTwoInACircle (.task "audit") = ∅ := by
  have simple : twoInACircle.IsSimple := by unfold IsSimple; decide
  have spanned : twoInACircle.IsSpanned := by
    rintro _ _ ⟨edge, member, rfl, rfl⟩
    revert edge
    decide
  have forth : twoInACircle.Adjacent (.task "fetch") (.task "build") := by unfold Adjacent; decide
  have back : twoInACircle.Adjacent (.task "build") (.task "fetch") := by unfold Adjacent; decide
  obtain ⟨_, results⟩ := effectiveGroups_isLeast simple spanned groupOfTwoInACircle
  refine ⟨.trans (.edge forth) back, ?_, ?_, ?_⟩
  · exact ((results (.task "fetch") (by decide)).1 1).mp (by decide)
  · exact ((results (.task "build") (by decide)).1 1).mp (by decide)
  · exact (results (.task "audit") (by decide)).2.mp (by decide)

end TaskPlanner.Graph
