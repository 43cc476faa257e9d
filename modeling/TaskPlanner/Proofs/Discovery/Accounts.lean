import TaskPlanner.Proofs.Discovery.Exploration

/-! What becomes of dependencies. A walk meets the dependencies of an item before it comes back to
the item and enters it. Only a walk that fails leaves items behind on which others depend. -/

set_option autoImplicit false

namespace TaskPlanner

namespace Inventory

variable {inventory before after : Inventory} {seeded lost more : List WorkItem} {item : WorkItem}

/-- The finished items are those that were entered or rejected. No item that cannot run was entered,
but for seeds, and no marker is such an item. -/
structure Admitted (seeded : List WorkItem) (inventory : Inventory) : Prop where
  known : ∀ item, (inventory.node item).processed = true →
    item ∈ inventory.index ∨ item ∈ inventory.filtered
  entered : ∀ item ∈ inventory.index, (inventory.node item).processed = true
  barred : ∀ item ∈ inventory.index, (inventory.node item).cannotRun = true → item ∈ seeded
  unmarked : ∀ item, (inventory.node item).cannotRun = true → item.isMarker = false

/-- The item is among the items to run, or something keeps it out: the filter, an earlier plan, or
that it got lost. -/
def AccountsFor (lost : List WorkItem) (inventory : Inventory) (item : WorkItem) : Prop :=
  item ∈ inventory.index ∨ item ∈ inventory.filtered ∨
    (inventory.node item).cannotRun = true ∨ item ∈ lost

/-- The dependencies of entered items are accounted for. -/
def Awaits (seeded lost : List WorkItem) (inventory : Inventory) : Prop :=
  ∀ item ∈ inventory.index, item ∉ seeded → item.isMarker = false →
    ∀ dependency ∈ (inventory.relations item).dependencies, inventory.AccountsFor lost dependency

theorem AccountsFor.mono (known : inventory.AccountsFor lost item) (subset : lost ⊆ more) :
    inventory.AccountsFor more item :=
  known.imp_right (·.imp_right (·.imp_right (subset ·)))

theorem Awaits.mono {moreSeeds : List WorkItem} (awaits : inventory.Awaits seeded lost)
    (seeds : seeded ⊆ moreSeeds) (losses : lost ⊆ more) : inventory.Awaits moreSeeds more := by
  intro item indexed unseeded unmarked dependency related
  have before : item ∉ seeded := fun seed => unseeded (seeds seed)
  exact (awaits item indexed before unmarked dependency related).mono losses

theorem Admitted.mono (admitted : inventory.Admitted seeded) (subset : seeded ⊆ more) :
    inventory.Admitted more :=
  ⟨admitted.known, admitted.entered,
    fun item indexed barred => subset (admitted.barred item indexed barred), admitted.unmarked⟩

/-- An item that is finished when it is entered leaves the books in order, if it may run. -/
theorem Admitted.enter (admitted : before.Admitted seeded)
    (processed : ∀ other, (after.node other).processed =
      (decide (other = item) || (before.node other).processed))
    (cannotRun : ∀ other, (after.node other).cannotRun = (before.node other).cannotRun)
    (index : after.index = before.index.insert item) (filtered : after.filtered = before.filtered)
    (runnable : (before.node item).cannotRun = true → item ∈ seeded) :
    after.Admitted seeded := by
  constructor
  · intro other finished
    rw [index, filtered, ItemSet.mem_insert]
    simp only [processed, Bool.or_eq_true, decide_eq_true_eq] at finished
    rcases finished with same | earlier
    · exact .inl (.inr same)
    · exact (admitted.known other earlier).imp_left .inl
  · intro other indexed
    rw [index, ItemSet.mem_insert] at indexed
    simp only [processed, Bool.or_eq_true, decide_eq_true_eq]
    exact indexed.symm.imp_right (admitted.entered other)
  · intro other indexed barred
    rw [index, ItemSet.mem_insert] at indexed
    rw [cannotRun] at barred
    rcases indexed with earlier | rfl
    · exact admitted.barred other earlier barred
    · exact runnable barred
  · intro other barred
    rw [cannotRun] at barred
    exact admitted.unmarked other barred

/-! ## Inventories with the same findings -/

/-- Both inventories list the same items, and agree on what is finished and what cannot run. -/
structure Agrees (before after : Inventory) : Prop where
  index : after.index = before.index
  filtered : after.filtered = before.filtered
  processed : ∀ item, (after.node item).processed = (before.node item).processed
  cannotRun : ∀ item, (after.node item).cannotRun = (before.node item).cannotRun

theorem Agrees.admitted (agrees : before.Agrees after) (admitted : before.Admitted seeded) :
    after.Admitted seeded := by
  constructor
  · intro item finished
    rw [agrees.processed] at finished
    rw [agrees.index, agrees.filtered]
    exact admitted.known item finished
  · intro item indexed
    rw [agrees.index] at indexed
    rw [agrees.processed]
    exact admitted.entered item indexed
  · intro item indexed barred
    rw [agrees.index] at indexed
    rw [agrees.cannotRun] at barred
    exact admitted.barred item indexed barred
  · intro item barred
    rw [agrees.cannotRun] at barred
    exact admitted.unmarked item barred

theorem Agrees.awaits (agrees : before.Agrees after)
    (relations : ∀ item, after.relations item = before.relations item)
    (awaits : before.Awaits seeded lost) : after.Awaits seeded lost := by
  intro item indexed unseeded unmarked dependency related
  rw [agrees.index] at indexed
  rw [relations] at related
  have known := awaits item indexed unseeded unmarked dependency related
  unfold AccountsFor at known ⊢
  rwa [agrees.index, agrees.filtered, agrees.cannotRun]

end Inventory

namespace Plan

/-- What the resolver was asked about, but for its first `count` inquiries, and what was not entered
all the same. -/
def droppedSince (count : Nat) (plan : Plan) : List WorkItem :=
  (plan.inquiries.asked.drop count).filter (· ∉ plan.index)

theorem agrees_inquire (plan : Plan) (item : WorkItem) :
    plan.toInventory.Agrees (plan.inquire item).toInventory where
  index := rfl
  filtered := rfl
  processed other :=
    inquire_keeps (fun node => node.processed = (plan.node other).processed) (fun _ _ => id) rfl
  cannotRun other :=
    inquire_keeps (fun node => node.cannotRun = (plan.node other).cannotRun) (fun _ _ => id) rfl

theorem relations_inquire (plan : Plan) (item other : WorkItem) :
    (plan.inquire item).relations other = plan.relations other :=
  inquire_keeps (fun node => node.relations = plan.relations other) (fun _ _ => id) rfl

theorem droppedSince_subset_inquire (count : Nat) (plan : Plan) (item : WorkItem) :
    plan.droppedSince count ⊆ (plan.inquire item).droppedSince count := by
  intro other dropped
  obtain ⟨asked, unlisted⟩ := List.mem_filter.mp dropped
  refine List.mem_filter.mpr ⟨?_, unlisted⟩
  show other ∈ (plan.inquiries.asked ++ [item]).drop count
  rw [List.drop_append]
  exact List.mem_append_left _ asked

end Plan

namespace Walk

variable {walk next : Walk} {resolver : Resolver} {seeded lost asked : List WorkItem}
  {item dependency : WorkItem}

/-- The items that are visited before the walk comes back to `item`. -/
def ahead (walk : Walk) (item : WorkItem) : List WorkItem := walk.queued.takeWhile (· ≠ item)

/-- The item is accounted for, or the walk has met it and will come back to it. -/
def HasMet (lost : List WorkItem) (walk : Walk) (item : WorkItem) : Prop :=
  walk.plan.AccountsFor lost item ∨ item ∈ walk.visiting

/-- The books of a walk: what it is going to enter, it enters behind all dependencies. -/
structure Accounts (seeded lost asked : List WorkItem) (walk : Walk) : Prop where
  returns : walk.Returns
  admitted : walk.plan.Admitted seeded
  pending : ∀ item ∈ walk.visiting, ∀ dependency ∈ (walk.plan.relations item).dependencies,
    walk.HasMet lost dependency ∨ dependency ∈ walk.ahead item
  awaited : ∀ item ∈ walk.plan.index, item ∉ seeded → item.isMarker = false →
    ∀ dependency ∈ (walk.plan.relations item).dependencies, walk.HasMet lost dependency
  called : ∃ calls, walk.plan.inquiries.asked = asked ++ calls ∧ walk.visiting ⊆ calls

/-! ## The queue -/

theorem ahead_front {visit : Visit} {rest : List Visit} (front : walk.queue = visit :: rest) :
    walk.ahead visit.item = [] := by
  rw [ahead, queued_eq front, List.takeWhile_cons_of_neg (by simp)]

theorem mem_ahead_cons {visit : Visit} {rest : List Visit} (front : walk.queue = visit :: rest)
    (before : dependency ∈ walk.ahead item) :
    dependency = visit.item ∨ dependency ∈ (rest.map (·.item)).takeWhile (· ≠ item) := by
  rw [ahead, queued_eq front, List.takeWhile_cons] at before
  split at before
  · exact List.mem_cons.mp before
  · cases before

theorem mem_takeWhile_append {inserted behind : List WorkItem} (absent : item ∉ inserted)
    (before : dependency ∈ behind.takeWhile (· ≠ item)) :
    dependency ∈ (inserted ++ behind).takeWhile (· ≠ item) := by
  have passed : ∀ other ∈ inserted, decide (other ≠ item) = true := by
    intro other member
    exact decide_eq_true fun same => absent (same ▸ member)
  rw [List.takeWhile_append_of_pos passed]
  exact List.mem_append_right _ before

theorem queued_leave (walk : Walk) (visit : Visit) (rest : List Visit) :
    (walk.leave visit rest).queued =
      ((walk.plan.relations visit.item).finalizers.filter
        (· ∉ walk.visiting.erase visit.item)).reverse ++ rest.map (·.item) := by
  simp [queued, Walk.leave, Function.comp_def]

theorem queued_descend (walk : Walk) (visit : Visit) (resolution : Resolution) :
    (walk.descend visit resolution).queued =
      resolution.relations.dependencies.filter (· ∉ visit.item :: walk.visiting) ++
        walk.queued := by
  simp [queued, Walk.descend, Function.comp_def]

/-! ## What a step keeps -/

theorem Moves.cannotRun_eq (moves : Moves resolver walk next) (item : WorkItem) :
    (next.plan.node item).cannotRun = (walk.plan.node item).cannotRun :=
  (moves.growsInto.catalog item).cannotRun

theorem Reaches.cannotRun_eq {last : Walk} (reaches : Reaches resolver walk last)
    (item : WorkItem) : (last.plan.node item).cannotRun = (walk.plan.node item).cannotRun :=
  (reaches.growsInto.catalog item).cannotRun

theorem Stops.cannotRun_eq {attempt : Attempt Unit} (stops : Stops resolver walk attempt)
    (item : WorkItem) :
    (attempt.plan.node item).cannotRun = (walk.plan.node item).cannotRun :=
  (stops.growsInto.catalog item).cannotRun

/-- The relations of the items that are in the index or on their way there stay. -/
theorem Moves.relations_eq (moves : Moves resolver walk next)
    (admitted : walk.plan.Admitted seeded)
    (met : item ∈ walk.plan.index ∨ item ∈ walk.visiting) :
    next.plan.relations item = walk.plan.relations item :=
  moves.relations_of_met (met.imp_left (admitted.entered item))

theorem Moves.admitted (moves : Moves resolver walk next)
    (admitted : walk.plan.Admitted seeded) : next.plan.Admitted seeded := by
  have cannotRun := moves.cannotRun_eq
  cases moves with
  | drop => exact admitted
  | @setAside visit =>
      constructor
      · intro item processed
        rw [Plan.processed_setAside, Bool.or_eq_true, decide_eq_true_eq] at processed
        rcases processed with same | before
        · exact .inr (ItemSet.mem_insert.mpr (.inr same))
        · exact (admitted.known item before).imp_right fun listed =>
            ItemSet.mem_insert.mpr (.inl listed)
      · intro item indexed
        rw [Plan.processed_setAside, admitted.entered item indexed, Bool.or_true]
      · intro item indexed barred
        rw [Plan.cannotRun_setAside] at barred
        exact admitted.barred item indexed barred
      · intro item barred
        rw [cannotRun] at barred
        exact admitted.unmarked item barred
  | @leave visit rest front isOpen =>
      apply admitted.enter (Plan.processed_enroll _ _) cannotRun rfl rfl
      intro barred
      cases isOpen.2.symm.trans barred
  | @descend visit rest resolution =>
      have agrees : walk.plan.Agrees (walk.descend visit resolution).plan.toInventory :=
        ⟨rfl, rfl, Plan.processed_adopt_inquire _ _ _, cannotRun⟩
      exact agrees.admitted admitted

theorem Moves.accountsFor (moves : Moves resolver walk next)
    (known : walk.plan.AccountsFor lost dependency) : next.plan.AccountsFor lost dependency := by
  have cannotRun := moves.cannotRun_eq dependency
  unfold Inventory.AccountsFor at known ⊢
  rw [cannotRun]
  cases moves with
  | drop => exact known
  | setAside =>
      exact known.imp_right (·.imp_left fun listed => ItemSet.mem_insert.mpr (.inl listed))
  | leave => exact known.imp_left fun indexed => ItemSet.mem_insert.mpr (.inl indexed)
  | descend => exact known

theorem Moves.hasMet (moves : Moves resolver walk next) (met : walk.HasMet lost dependency) :
    next.HasMet lost dependency := by
  cases met with
  | inl known => exact .inl (moves.accountsFor known)
  | inr inside =>
      cases moves with
      | drop => exact .inr inside
      | setAside => exact .inr inside
      | @leave visit =>
          by_cases left : dependency = visit.item
          · exact .inl (.inl (ItemSet.mem_insert.mpr (.inr left)))
          · exact .inr ((List.mem_erase_of_ne left).mpr inside)
      | descend => exact .inr (List.mem_cons_of_mem _ inside)

/-- What the walk is to meet before it comes back to `item`, it meets or is still to meet. -/
theorem Moves.meets (moves : Moves resolver walk next)
    (finished : ∀ item, (walk.plan.node item).processed = true →
      item ∈ walk.plan.index ∨ item ∈ walk.plan.filtered)
    (inside : item ∈ next.visiting) (before : dependency ∈ walk.ahead item) :
    next.plan.AccountsFor lost dependency ∨ dependency ∈ next.ahead item := by
  cases moves with
  | drop front shut =>
      refine (mem_ahead_cons front before).imp_left ?_
      rintro rfl
      unfold IsOpen at shut
      rw [not_and_or, Bool.not_eq_false, Bool.not_eq_false] at shut
      rcases shut with processed | barred
      · exact (finished _ processed).imp_right .inl
      · exact .inr (.inr (.inl barred))
  | setAside front =>
      refine (mem_ahead_cons front before).imp_left ?_
      rintro rfl
      exact .inr (.inl (ItemSet.mem_insert.mpr (.inr rfl)))
  | leave front =>
      rcases mem_ahead_cons front before with rfl | behind
      · exact .inl (.inl (ItemSet.mem_insert.mpr (.inr rfl)))
      · right
        rw [ahead, queued_leave]
        refine mem_takeWhile_append (fun inserted => ?_) behind
        have outside := (List.mem_filter.mp (List.mem_reverse.mp inserted)).2
        exact of_decide_eq_true outside inside
  | descend =>
      right
      rw [ahead, queued_descend]
      refine mem_takeWhile_append (fun inserted => ?_) before
      have outside := (List.mem_filter.mp inserted).2
      exact of_decide_eq_true outside inside

/-- The dependencies of an item that is entered for the first time are in front of it. -/
theorem mem_ahead_descend {visit : Visit} {resolution : Resolution}
    (awaited : dependency ∈ resolution.relations.dependencies)
    (fresh : dependency ∉ visit.item :: walk.visiting) :
    dependency ∈ (walk.descend visit resolution).ahead visit.item := by
  have passed : ∀ other ∈ resolution.relations.dependencies.filter
      (· ∉ visit.item :: walk.visiting), decide (other ≠ visit.item) = true := by
    intro other member
    have outside := of_decide_eq_true (List.mem_filter.mp member).2
    exact decide_eq_true fun same => outside (same ▸ List.mem_cons_self)
  rw [ahead, queued_descend, List.takeWhile_append_of_pos passed]
  exact List.mem_append_left _ (List.mem_filter.mpr ⟨awaited, decide_eq_true fresh⟩)

/-- Before the walk comes back to an item, it meets the dependencies of the item. -/
theorem Moves.pending (moves : Moves resolver walk next)
    (accounts : walk.Accounts seeded lost asked) (inside : item ∈ next.visiting)
    (related : dependency ∈ (next.plan.relations item).dependencies) :
    next.HasMet lost dependency ∨ dependency ∈ next.ahead item := by
  by_cases entered : item ∈ walk.visiting
  · rw [moves.relations_eq accounts.admitted (.inr entered)] at related
    rcases accounts.pending item entered dependency related with met | before
    · exact .inl (moves.hasMet met)
    · exact (moves.meets accounts.admitted.known inside before).imp_left .inl
  · cases moves with
    | drop => exact absurd inside entered
    | setAside => exact absurd inside entered
    | leave => exact absurd (List.mem_of_mem_erase inside) entered
    | @descend visit rest resolution front =>
        obtain rfl := (List.mem_cons.mp inside).resolve_right entered
        have same : (walk.descend visit resolution).plan.relations visit.item =
            resolution.relations := (Plan.relations_adopt_inquire _ _ _ _).trans (if_pos rfl)
        rw [same] at related
        by_cases present : dependency ∈ visit.item :: walk.visiting
        · exact .inl (.inr present)
        · exact .inr (mem_ahead_descend related present)

/-- When the walk enters an item into the index, it has met the dependencies of the item. -/
theorem Moves.awaited (moves : Moves resolver walk next)
    (accounts : walk.Accounts seeded lost asked) (indexed : item ∈ next.plan.index)
    (unseeded : item ∉ seeded) (unmarked : item.isMarker = false)
    (related : dependency ∈ (next.plan.relations item).dependencies) :
    next.HasMet lost dependency := by
  have keeps : walk.HasMet lost dependency → next.HasMet lost dependency := moves.hasMet
  by_cases before : item ∈ walk.plan.index
  · rw [moves.relations_eq accounts.admitted (.inl before)] at related
    exact keeps (accounts.awaited item before unseeded unmarked dependency related)
  · cases moves with
    | drop => exact absurd indexed before
    | setAside => exact absurd indexed before
    | @leave visit rest front isOpen accepted inside =>
        obtain rfl := (ItemSet.mem_insert.mp indexed).resolve_left before
        have same : (walk.leave visit rest).plan.relations visit.item =
            walk.plan.relations visit.item := Plan.relations_enroll _ _ _
        rw [same] at related
        -- Nothing is in front of the item any more.
        have met := accounts.pending visit.item inside dependency related
        rw [ahead_front front] at met
        exact keeps (met.resolve_right List.not_mem_nil)
    | descend => exact absurd indexed before

theorem Moves.called (moves : Moves resolver walk next)
    (called : ∃ calls, walk.plan.inquiries.asked = asked ++ calls ∧ walk.visiting ⊆ calls) :
    ∃ calls, next.plan.inquiries.asked = asked ++ calls ∧ next.visiting ⊆ calls := by
  obtain ⟨calls, same, entered⟩ := called
  cases moves with
  | drop => exact ⟨calls, same, entered⟩
  | setAside => exact ⟨calls, same, entered⟩
  | leave => exact ⟨calls, same, fun item inside => entered (List.mem_of_mem_erase inside)⟩
  | @descend visit =>
      refine ⟨calls ++ [visit.item], ?_, ?_⟩
      · show walk.plan.inquiries.asked ++ [visit.item] = asked ++ (calls ++ [visit.item])
        rw [same, List.append_assoc]
      · exact List.cons_subset.mpr ⟨List.mem_append_right _ List.mem_cons_self,
          List.subset_append_of_subset_left _ entered⟩

theorem Moves.accounts (moves : Moves resolver walk next)
    (accounts : walk.Accounts seeded lost asked) : next.Accounts seeded lost asked where
  returns := moves.returns accounts.returns
  admitted := moves.admitted accounts.admitted
  pending _ inside _ related := moves.pending accounts inside related
  awaited _ indexed unseeded unmarked _ related :=
    moves.awaited accounts indexed unseeded unmarked related
  called := moves.called accounts.called

theorem Reaches.accounts {last : Walk} (reaches : Reaches resolver walk last)
    (accounts : walk.Accounts seeded lost asked) : last.Accounts seeded lost asked := by
  induction reaches with
  | refl => exact accounts
  | tail _ moves ih => exact moves.accounts ih

/-! ## The end of a walk -/

/-- An item that the walk was to come back to was asked about. If it was not entered, it is lost. -/
theorem Accounts.awaits (accounts : walk.Accounts seeded lost asked) :
    walk.plan.Awaits seeded (lost ++ walk.plan.droppedSince asked.length) := by
  obtain ⟨calls, same, entered⟩ := accounts.called
  intro item indexed unseeded unmarked dependency related
  rcases accounts.awaited item indexed unseeded unmarked dependency related with known | inside
  · exact known.mono (List.subset_append_left _ _)
  · by_cases listed : dependency ∈ walk.plan.index
    · exact .inl listed
    · refine .inr (.inr (.inr (List.mem_append_right _ (List.mem_filter.mpr ⟨?_, ?_⟩))))
      · rw [same, List.drop_left]
        exact entered inside
      · exact decide_eq_true listed

/-- However a walk ends, the dependencies of what it entered are accounted for, or they are among
what it asked about in vain. -/
theorem Stops.accounts {attempt : Attempt Unit} (stops : Stops resolver walk attempt)
    (accounts : walk.Accounts seeded lost asked) :
    attempt.plan.Admitted seeded ∧
      attempt.plan.Awaits seeded (lost ++ attempt.plan.droppedSince asked.length) := by
  cases stops with
  | done => exact ⟨accounts.admitted, accounts.awaits⟩
  | @unresolved visit =>
      have agrees := walk.plan.agrees_inquire visit.item
      have awaits := agrees.awaits (walk.plan.relations_inquire visit.item) accounts.awaits
      refine ⟨agrees.admitted accounts.admitted, awaits.mono (List.Subset.refl _) ?_⟩
      · apply List.append_subset.mpr
        refine ⟨List.subset_append_left _ _, List.subset_append_of_subset_right _ ?_⟩
        exact Plan.droppedSince_subset_inquire _ _ _
  | cycle front isOpen accepted outside answered =>
      have after := Moves.accounts (.descend front isOpen accepted outside answered) accounts
      exact ⟨after.admitted, after.awaits⟩

end Walk

end TaskPlanner
