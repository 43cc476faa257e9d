import TaskPlanner.Proofs.Discovery.Exploration

/-! A walk enters whatever it asks about, unless it fails. This holds of walks in any plan, also in
one where earlier walks have failed or items have been cut off. -/

set_option autoImplicit false

namespace TaskPlanner.Walk

variable {walk next : Walk} {resolver : Resolver} {asked : List WorkItem}

/-- Since `asked`, the plan has only been asking about items that the walk has entered or will come
back to, and it has or will come to their dependencies. -/
structure Pursues (resolver : Resolver) (asked : List WorkItem) (walk : Walk) : Prop where
  returns : walk.Returns
  calls : ∃ calls, walk.plan.inquiries.asked = asked ++ calls ∧ ∀ item ∈ calls,
    (item ∈ walk.plan.index ∨ item ∈ walk.visiting) ∧
    ∃ resolution, resolver.answer item = .ok resolution ∧
      ∀ dependency ∈ resolution.relations.dependencies, walk.Covers dependency

theorem Moves.pursues (moves : Moves resolver walk next) (pursues : Pursues resolver asked walk) :
    Pursues resolver asked next := by
  obtain ⟨calls, same, known⟩ := pursues.calls
  -- What was known of an item that has been asked about is known, once it has its place.
  have keeps : ∀ item ∈ calls, item ∈ next.plan.index ∨ item ∈ next.visiting →
      (item ∈ next.plan.index ∨ item ∈ next.visiting) ∧
      ∃ resolution, resolver.answer item = .ok resolution ∧
        ∀ dependency ∈ resolution.relations.dependencies, next.Covers dependency := by
    intro item called place
    obtain ⟨_, resolution, answered, covers⟩ := known item called
    exact ⟨place, resolution, answered, fun dependency member =>
      moves.covers (covers dependency member)⟩
  have returns := moves.returns pursues.returns
  refine ⟨returns, ?_⟩
  cases moves with
  | drop => exact ⟨calls, same, fun item called => keeps item called (known item called).1⟩
  | setAside => exact ⟨calls, same, fun item called => keeps item called (known item called).1⟩
  | @leave visit rest =>
      refine ⟨calls, same, fun item called => keeps item called ?_⟩
      show item ∈ walk.plan.index.insert visit.item ∨ item ∈ walk.visiting.erase visit.item
      rw [ItemSet.mem_insert, or_assoc]
      refine (known item called).1.imp_right fun inside => ?_
      by_cases left : item = visit.item
      · exact .inl left
      · exact .inr ((List.mem_erase_of_ne left).mpr inside)
  | @descend visit rest resolution front _ _ _ answered =>
      refine ⟨calls ++ [visit.item], ?_, fun item called => ?_⟩
      · show walk.plan.inquiries.asked ++ [visit.item] = asked ++ (calls ++ [visit.item])
        rw [same, List.append_assoc]
      · rcases List.mem_append.mp called with earlier | now
        · exact keeps item earlier
            ((known item earlier).1.imp id fun inside => List.mem_cons_of_mem _ inside)
        · obtain rfl := List.mem_singleton.mp now
          exact ⟨.inr List.mem_cons_self, resolution, answered,
            fun dependency member => .inr (.inr (returns.mem_queued member))⟩

theorem Reaches.pursues {last : Walk} (reaches : Reaches resolver walk last)
    (pursues : Pursues resolver asked walk) : Pursues resolver asked last := by
  induction reaches with
  | refl => exact pursues
  | tail _ moves ih => exact moves.pursues ih

/-- At its end, a walk has entered everything that it asked about. -/
theorem Pursues.ended (pursues : Pursues resolver asked walk) (ended : walk.queue = []) :
    ∃ calls, walk.plan.inquiries.asked = asked ++ calls ∧ ∀ item ∈ calls,
      item ∈ walk.plan.index ∧ ∃ resolution, resolver.answer item = .ok resolution ∧
        ∀ dependency ∈ resolution.relations.dependencies,
          (walk.plan.node dependency).processed = true ∨
            (walk.plan.node dependency).cannotRun = true := by
  have nothing : ∀ item, item ∉ walk.queued := by
    intro item
    rw [queued, ended]
    exact List.not_mem_nil
  obtain ⟨calls, same, known⟩ := pursues.calls
  refine ⟨calls, same, fun item called => ?_⟩
  obtain ⟨place, resolution, answered, covers⟩ := known item called
  refine ⟨place.resolve_right fun inside => nothing item (pursues.returns.waiting inside),
    resolution, answered, fun dependency member => ?_⟩
  exact (covers dependency member).imp_right fun either => either.resolve_right (nothing dependency)

end TaskPlanner.Walk
