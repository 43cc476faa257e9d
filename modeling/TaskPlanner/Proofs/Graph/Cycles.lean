import Mathlib.Data.List.Perm.Subperm
import TaskPlanner.Proofs.Graph.Reachability

/-! The search for cycles is complete. A search finds everything that can be reached, because
every round finds something new and there are only so many targets. A depth-first walk leaves
every vertex, so an order closed under the edges speaks about all of them. -/

set_option autoImplicit false

namespace TaskPlanner

/-! ## Searches -/

theorem nodup_eraseDups (items : List WorkItem) : items.eraseDups.Nodup := by
  match items with
  | [] => simp
  | head :: rest =>
      rw [List.eraseDups_cons]
      have shorter := List.length_filter_le (fun other => !other == head) rest
      refine List.nodup_cons.mpr ⟨?_, nodup_eraseDups _⟩
      simp
termination_by items.length
decreasing_by
  simp only [List.length_cons]
  omega

namespace Graph

variable {graph : Graph} {source target item : WorkItem}

/-- What a round of a search finds for the first time. -/
def newcomers (steps : WorkItem → List WorkItem) (found frontier : List WorkItem) :
    List WorkItem :=
  ((frontier.flatMap steps).eraseDups).filter (· ∉ found)

/-- A search among `targets` has found different items, and has taken the steps from all but those
at its frontier. -/
structure Searched (steps : WorkItem → List WorkItem) (targets found frontier : List WorkItem) :
    Prop where
  distinct : found.Nodup
  known : found ⊆ targets
  behind : ∀ item ∈ found, item ∈ frontier ∨ steps item ⊆ found

section Searches

variable {steps : WorkItem → List WorkItem} {targets found frontier : List WorkItem}

theorem mem_newcomers :
    item ∈ newcomers steps found frontier ↔
      (∃ origin ∈ frontier, item ∈ steps origin) ∧ item ∉ found := by
  simp only [newcomers, List.mem_filter, List.mem_eraseDups, List.mem_flatMap, decide_eq_true_eq]

theorem Searched.covered (searched : Searched steps targets found frontier)
    (member : item ∈ found) : steps item ⊆ found ++ newcomers steps found frontier := by
  intro next step
  rw [List.mem_append, mem_newcomers]
  by_cases old : next ∈ found
  · exact .inl old
  · rcases searched.behind item member with front | inside
    · exact .inr ⟨⟨item, front, step⟩, old⟩
    · exact absurd (inside step) old

theorem Searched.advance (searched : Searched steps targets found frontier)
    (within : ∀ item, steps item ⊆ targets) :
    Searched steps targets (found ++ newcomers steps found frontier)
      (newcomers steps found frontier) := by
  constructor
  · refine List.nodup_append.mpr ⟨searched.distinct, (nodup_eraseDups _).filter _, ?_⟩
    rintro old member new fresh rfl
    exact (mem_newcomers.mp fresh).2 member
  · refine List.append_subset.mpr ⟨searched.known, fun item fresh => ?_⟩
    obtain ⟨⟨origin, _, step⟩, _⟩ := mem_newcomers.mp fresh
    exact within origin step
  · intro item member
    rcases List.mem_append.mp member with old | new
    · exact .inr (searched.covered old)
    · exact .inl new

/-- Once all targets are found, no step leads anywhere else. -/
theorem Searched.closed_of_length (searched : Searched steps targets found frontier)
    (within : ∀ item, steps item ⊆ targets) (all : targets.length ≤ found.length) :
    ∀ item ∈ found, steps item ⊆ found := by
  intro item _ next step
  refine Decidable.byContradiction fun missing => ?_
  have more := List.subperm_of_subset (List.nodup_cons.mpr ⟨missing, searched.distinct⟩)
    (List.cons_subset.mpr ⟨within item step, searched.known⟩)
  exact Nat.not_succ_le_self _ (Nat.le_trans more.length_le all)

/-- A search that may take as many rounds as there are targets left ends with a set that no step
leaves. -/
theorem spread_complete (searched : Searched steps targets found frontier)
    (within : ∀ item, steps item ⊆ targets) {rounds : Nat}
    (enough : targets.length ≤ found.length + rounds) :
    found ⊆ spread steps rounds found frontier ∧
      ∀ item ∈ spread steps rounds found frontier,
        steps item ⊆ spread steps rounds found frontier := by
  induction rounds generalizing found frontier with
  | zero => exact ⟨List.Subset.refl found, searched.closed_of_length within enough⟩
  | succ rounds ih =>
      have round : spread steps (rounds + 1) found frontier =
          if (newcomers steps found frontier).isEmpty then found
          else spread steps rounds (found ++ newcomers steps found frontier)
            (newcomers steps found frontier) := rfl
      rw [round]
      split
      next settled =>
        refine ⟨List.Subset.refl found, fun item member => ?_⟩
        have covered := searched.covered member
        rw [List.isEmpty_iff.mp settled, List.append_nil] at covered
        exact covered
      next unsettled =>
        have positive : 0 < (newcomers steps found frontier).length :=
          List.length_pos_iff.mpr fun none => unsettled (List.isEmpty_iff.mpr none)
        have nextEnough : targets.length ≤
            (found ++ newcomers steps found frontier).length + rounds := by
          rw [List.length_append]
          omega
        obtain ⟨includes, closed⟩ := ih (searched.advance within) nextEnough
        exact ⟨List.Subset.trans (List.subset_append_left _ _) includes, closed⟩

end Searches

theorem mem_descendants_iff : target ∈ graph.descendants source ↔ graph.Reaches source target := by
  constructor
  · exact reaches_of_mem_descendants
  · intro reaches
    have within : ∀ item, graph.successors item ⊆ graph.edges.map (·.target) := by
      intro item next step
      obtain ⟨edge, member, _, rfl⟩ := mem_successors.mp step
      exact List.mem_map_of_mem member
    have searched : Searched graph.successors (graph.edges.map (·.target))
        (graph.successors source).eraseDups (graph.successors source).eraseDups :=
      ⟨nodup_eraseDups _, fun item member => within source (List.mem_eraseDups.mp member),
        fun item member => .inl member⟩
    have enough : (graph.edges.map (·.target)).length ≤
        ((graph.successors source).eraseDups).length + graph.edges.length := by
      simp
    obtain ⟨includes, closed⟩ := spread_complete searched within enough
    induction reaches with
    | edge adjacent => exact includes (List.mem_eraseDups.mpr (mem_successors.mpr adjacent))
    | trans _ adjacent ih => exact closed _ ih (mem_successors.mpr adjacent)

/-! ## Depth-first walks -/

/-- A walk forgets nothing, and leaves whatever it meets. -/
structure DepthFirst.Grows (before after : DepthFirst) : Prop where
  met : ∀ item ∈ before.met, item ∈ after.met
  left : ∀ item ∈ before.left, item ∈ after.left
  leaves : ∀ item ∈ after.met, item ∈ before.met ∨ item ∈ after.left

theorem DepthFirst.Grows.refl (state : DepthFirst) : state.Grows state :=
  ⟨fun _ => id, fun _ => id, fun _ => .inl⟩

theorem DepthFirst.Grows.trans {before middle after : DepthFirst}
    (first : before.Grows middle) (second : middle.Grows after) : before.Grows after := by
  constructor
  · intro item member
    exact second.met item (first.met item member)
  · intro item member
    exact second.left item (first.left item member)
  · intro item member
    rcases second.leaves item member with earlier | left
    · exact (first.leaves item earlier).imp id (second.left item)
    · exact .inr left

theorem grows_foldl {walk : DepthFirst → WorkItem → DepthFirst}
    (grows : ∀ (state : DepthFirst) item, state.Grows (walk state item)) (items : List WorkItem)
    (state : DepthFirst) : state.Grows (items.foldl walk state) := by
  induction items generalizing state with
  | nil => exact .refl state
  | cons item rest ih => exact (grows state item).trans (ih (walk state item))

theorem grows_walkFrom (graph : Graph) (depth : Nat) (item : WorkItem) (state : DepthFirst) :
    state.Grows (graph.walkFrom depth item state) := by
  induction depth generalizing item state with
  | zero => exact .refl state
  | succ depth ih =>
      unfold walkFrom
      split
      · exact .refl state
      · have inner := grows_foldl (fun state item => ih item state) (graph.successors item)
          { state with met := item :: state.met }
        constructor
        · intro other member
          exact inner.met other (List.mem_cons_of_mem _ member)
        · intro other member
          exact List.mem_cons_of_mem _ (inner.left other member)
        · intro other member
          rcases inner.leaves other member with started | left
          · rcases List.mem_cons.mp started with rfl | earlier
            · exact .inr List.mem_cons_self
            · exact .inl earlier
          · exact .inr (List.mem_cons_of_mem _ left)

theorem mem_met_walkFrom (graph : Graph) (depth : Nat) (item : WorkItem) (state : DepthFirst) :
    item ∈ (graph.walkFrom (depth + 1) item state).met := by
  unfold walkFrom
  split
  next met => exact met
  next =>
    have inner := grows_foldl (fun state item => grows_walkFrom graph depth item state)
      (graph.successors item) { state with met := item :: state.met }
    exact inner.met item List.mem_cons_self

theorem mem_completionOrder (vertex : item ∈ graph.vertices) : item ∈ graph.completionOrder := by
  have grows := fun (state : DepthFirst) (item : WorkItem) =>
    grows_walkFrom graph (graph.vertices.length + 1) item state
  obtain ⟨earlier, later, split⟩ := List.append_of_mem vertex
  unfold completionOrder
  rw [List.mem_reverse]
  refine ((grows_foldl grows graph.vertices {}).leaves item ?_).resolve_left List.not_mem_nil
  generalize graph.vertices.length = depth at grows ⊢
  rw [split, List.foldl_append, List.foldl_cons]
  exact (grows_foldl grows later _).met item (mem_met_walkFrom graph _ item _)

/-- Nothing in a closed order waits for itself. -/
theorem not_reaches_of_isClosedOrder {later earlier : List WorkItem}
    (closed : graph.isClosedOrder later earlier = true)
    (earlierClosed : ∀ item ∈ earlier, ∀ next, graph.Adjacent item next → next ∈ earlier)
    (earlierAcyclic : ∀ item ∈ earlier, ¬ graph.Reaches item item) :
    ∀ item ∈ later, ¬ graph.Reaches item item := by
  induction later generalizing earlier with
  | nil => simp
  | cons item later ih =>
      unfold isClosedOrder at closed
      obtain ⟨successors, rest⟩ := Bool.and_eq_true_iff.mp closed
      have steps : ∀ next, graph.Adjacent item next → next ∈ earlier := by
        intro next adjacent
        exact of_decide_eq_true (List.all_eq_true.mp successors next (mem_successors.mpr adjacent))
      have beyond : ∀ next, graph.Reaches item next → next ∈ earlier := by
        intro next reaches
        induction reaches with
        | edge adjacent => exact steps _ adjacent
        | trans _ adjacent inside => exact earlierClosed _ inside _ adjacent
      have acyclic : ¬ graph.Reaches item item := fun reaches =>
        earlierAcyclic item (beyond item reaches) reaches
      have laterAcyclic := ih rest
        (by
          intro other member next adjacent
          rcases List.mem_cons.mp member with rfl | old
          · exact List.mem_cons_of_mem _ (steps next adjacent)
          · exact List.mem_cons_of_mem _ (earlierClosed other old next adjacent))
        (by
          intro other member
          rcases List.mem_cons.mp member with rfl | old
          · exact acyclic
          · exact earlierAcyclic other old)
      intro other member
      rcases List.mem_cons.mp member with rfl | inside
      · exact acyclic
      · exact laterAcyclic other inside

/-- The search for a cycle finds one exactly if there is one. -/
theorem cycle?_eq_none_iff
    (sources : ∀ source target, graph.Adjacent source target → source ∈ graph.vertices) :
    graph.cycle? = none ↔ graph.Acyclic := by
  refine ⟨fun unreported => ?_, Acyclic.cycle?_eq_none⟩
  have vertex : ∀ {source target}, graph.Reaches source target → source ∈ graph.vertices := by
    intro source target reaches
    induction reaches with
    | edge adjacent => exact sources _ _ adjacent
    | trans _ _ ih => exact ih
  intro item reaches
  unfold cycle? at unreported
  dsimp only at unreported
  split at unreported
  next closed =>
    exact not_reaches_of_isClosedOrder closed (by simp) (by simp) item
      (mem_completionOrder (vertex reaches)) reaches
  next =>
    rw [Option.map_eq_none_iff, Option.or_eq_none_iff, List.head?_eq_none_iff,
      List.filter_eq_nil_iff] at unreported
    exact unreported.2 item (vertex reaches) (decide_eq_true (mem_descendants_iff.mpr reaches))

end Graph

end TaskPlanner
