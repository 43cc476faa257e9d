import Mathlib.Algebra.BigOperators.Group.List.Basic
import Mathlib.Algebra.GroupWithZero.Nat
import TaskPlanner.Proofs.Counting
import TaskPlanner.Proofs.Discovery.Moves

/-! A walk ends within its step bound. An item that is entered pays for the visits that its
dependencies and finalizers may cause, and no item is entered twice. -/

set_option autoImplicit false

namespace TaskPlanner.Walk

variable {resolver : Resolver} {known : List WorkItem} {walk next : Walk}

/-- How many visits the items that are being walked may still cause. -/
def owed (walk : Walk) : Nat :=
  (walk.visiting.map fun item => (walk.plan.relations item).finalizers.length).sum

/-- How many visits are queued, or may still be caused by the items that are being walked. -/
def load (walk : Walk) : Nat := walk.queue.length + walk.owed

/-- Whether an item was not entered so far. -/
def isUntouched (walk : Walk) (item : WorkItem) : Bool :=
  !(walk.plan.node item).processed && decide (item ∉ walk.visiting)

/-- A bound on the steps that are left, if no item outside `known` is ever met. -/
def remaining (resolver : Resolver) (known : List WorkItem) (walk : Walk) : Nat :=
  walk.queue.length + walk.owed +
    ((known.filter walk.isUntouched).map fun item => 1 + resolver.fanOut item).sum

/-- Nothing outside `known` is ever met. -/
structure Within (resolver : Resolver) (known : List WorkItem) (walk : Walk) : Prop where
  mentionable : resolver.mentionable ⊆ known
  queue : ∀ visit ∈ walk.queue, visit.item ∈ known
  finalizers : ∀ item ∈ walk.visiting, ∀ other ∈ (walk.plan.relations item).finalizers,
    other ∈ known

/-- The items that are queued, or will be, are all of one kind. -/
structure Confined (kind : WorkItem → Prop) (walk : Walk) : Prop where
  queue : ∀ visit ∈ walk.queue, kind visit.item
  finalizers : ∀ item ∈ walk.visiting, ∀ other ∈ (walk.plan.relations item).finalizers, kind other

/-- A walk meets no other items as long as the item in front mentions no others. -/
theorem Moves.confined {kind : WorkItem → Prop} (moves : Moves resolver walk next)
    (mentions : ∀ {visit rest resolution}, walk.queue = visit :: rest →
      resolver.answer visit.item = .ok resolution → ∀ other ∈ resolution.mentioned, kind other)
    (confined : walk.Confined kind) : next.Confined kind := by
  cases moves with
  | drop front =>
      exact ⟨fun visit member => confined.queue visit (front ▸ List.mem_cons_of_mem _ member),
        confined.finalizers⟩
  | setAside front =>
      refine ⟨fun visit member => confined.queue visit (front ▸ List.mem_cons_of_mem _ member),
        fun item member other => ?_⟩
      rw [Plan.relations_setAside]
      exact confined.finalizers item member other
  | @leave visit rest front isOpen accepted inside =>
      refine ⟨fun visit member => ?_, fun item member other => ?_⟩
      · rcases List.mem_append.mp member with added | old
        · obtain ⟨other, listed, rfl⟩ := List.mem_map.mp (List.mem_reverse.mp added)
          have finalizer := (List.mem_filter.mp listed).1
          rw [Plan.relations_enroll] at finalizer
          exact confined.finalizers _ inside other finalizer
        · exact confined.queue visit (front ▸ List.mem_cons_of_mem _ old)
      · show other ∈ ((walk.plan.enroll visit.item).relations item).finalizers → _
        rw [Plan.relations_enroll]
        exact confined.finalizers item (List.mem_of_mem_erase member) other
  | @descend visit rest resolution front isOpen accepted outside answered =>
      refine ⟨fun visit member => ?_, fun item member other => ?_⟩
      · rcases List.mem_append.mp member with added | old
        · obtain ⟨other, listed, rfl⟩ := List.mem_map.mp added
          exact mentions front answered other
            (resolution.dependencies_subset_mentioned (List.mem_filter.mp listed).1)
        · exact confined.queue visit old
      · simp only [Walk.descend, Plan.relations_adopt_inquire]
        split
        · exact fun finalizer => mentions front answered other (List.mem_append_right _ finalizer)
        next different =>
          exact confined.finalizers item ((List.mem_cons.mp member).resolve_left different) other

theorem Moves.within (moves : Moves resolver walk next) (within : Within resolver known walk) :
    Within resolver known next := by
  obtain ⟨mentionable, queue, finalizers⟩ := within
  have confined : next.Confined (· ∈ known) := moves.confined
    (fun _ answered _ mentioned => mentionable (resolver.mentioned_subset answered _ mentioned))
    ⟨queue, finalizers⟩
  exact ⟨mentionable, confined.queue, confined.finalizers⟩

theorem owed_leave {visit : Visit} (rest : List Visit) (inside : visit.item ∈ walk.visiting) :
    (walk.leave visit rest).owed + (walk.plan.relations visit.item).finalizers.length =
      walk.owed := by
  unfold owed leave
  simp only [Plan.relations_enroll]
  rw [Nat.add_comm]
  exact List.sum_map_erase (fun item => (walk.plan.relations item).finalizers.length) inside

theorem length_queue_leave (walk : Walk) (visit : Visit) (rest : List Visit) :
    (walk.leave visit rest).queue.length ≤
      rest.length + (walk.plan.relations visit.item).finalizers.length := by
  simp only [leave, List.length_append, List.length_reverse, List.length_map,
    Plan.relations_enroll]
  have fewer := List.length_filter_le (fun item => decide (item ∉ walk.visiting.erase visit.item))
    (walk.plan.relations visit.item).finalizers
  omega

theorem owed_descend {visit : Visit} (resolution : Resolution)
    (outside : visit.item ∉ walk.visiting) :
    (walk.descend visit resolution).owed = resolution.finalizers.length + walk.owed := by
  unfold owed descend
  rw [List.map_cons, List.sum_cons, Plan.relations_adopt_inquire, if_pos rfl]
  congr 2
  refine List.map_congr_left fun item member => ?_
  have different : item ≠ visit.item := fun same => outside (same ▸ member)
  rw [Plan.relations_adopt_inquire, if_neg different]

theorem length_queue_descend (walk : Walk) (visit : Visit) (resolution : Resolution) :
    (walk.descend visit resolution).queue.length ≤
      resolution.successors.length + walk.queue.length := by
  have awaited := List.length_filter_le (·.awaited) resolution.successors
  have fewer := List.length_filter_le (fun item => decide (item ∉ visit.item :: walk.visiting))
    resolution.relations.dependencies
  simp only [descend, List.length_append, List.length_map]
  simp only [Resolution.relations, List.length_map] at fewer ⊢
  omega

/-- No step makes an item untouched. -/
theorem Moves.isUntouched_le (moves : Moves resolver walk next) (item : WorkItem) :
    next.isUntouched item = true → walk.isUntouched item = true := by
  simp only [isUntouched, Bool.and_eq_true, Bool.not_eq_true', decide_eq_true_eq]
  cases moves with
  | drop front => exact id
  | setAside front =>
      intro untouched
      rw [Plan.processed_setAside, Bool.or_eq_false_iff] at untouched
      exact ⟨untouched.1.2, untouched.2⟩
  | leave front =>
      intro untouched
      simp only [Walk.leave, Plan.processed_enroll, Bool.or_eq_false_iff,
        decide_eq_false_iff_not] at untouched
      obtain ⟨⟨different, unfinished⟩, outside⟩ := untouched
      exact ⟨unfinished, fun inside => outside ((List.mem_erase_of_ne different).mpr inside)⟩
  | descend front =>
      intro untouched
      simp only [Walk.descend, Plan.processed_adopt_inquire, List.mem_cons, not_or] at untouched
      exact ⟨untouched.1, untouched.2.2⟩

/-- A step takes up a part of the load, or it enters an item, which adds to the load. -/
theorem Moves.load_cases (moves : Moves resolver walk next) :
    next.load < walk.load ∨
      ∃ visit ∈ walk.queue, walk.isUntouched visit.item = true ∧
        next.isUntouched visit.item = false ∧
        next.load ≤ walk.load + resolver.fanOut visit.item := by
  unfold load
  cases moves with
  | drop front =>
      left
      rw [front, List.length_cons]
      exact Nat.add_lt_add_right (Nat.lt_succ_self _) _
  | @setAside visit rest front =>
      left
      have owed : owed { walk with plan := walk.plan.setAside visit.item, queue := rest } =
          walk.owed := by
        unfold Walk.owed
        simp only [Plan.relations_setAside]
      rw [front, List.length_cons, owed]
      exact Nat.add_lt_add_right (Nat.lt_succ_self _) _
  | @leave visit rest front isOpen accepted inside =>
      left
      have owed := owed_leave rest inside
      have queued := length_queue_leave walk visit rest
      rw [front, List.length_cons]
      omega
  | @descend visit rest resolution front isOpen accepted outside answered =>
      right
      have owed := owed_descend resolution outside
      have queued := length_queue_descend walk visit resolution
      have fanOut : resolver.fanOut visit.item =
          resolution.successors.length + resolution.finalizers.length := by
        unfold Resolver.fanOut
        rw [answered]
        rfl
      refine ⟨visit, front ▸ List.mem_cons_self, ?_, ?_, by omega⟩
      · simp [isUntouched, isOpen.1, outside]
      · simp [isUntouched, Walk.descend]

/-- Every step uses up a part of the bound. -/
theorem Moves.remaining_lt (moves : Moves resolver walk next)
    (within : Within resolver known walk) :
    next.remaining resolver known < walk.remaining resolver known := by
  show next.load + _ < walk.load + _
  rcases moves.load_cases with lighter | ⟨visit, queued, untouched, entered, heavier⟩
  · exact Nat.add_lt_add_of_lt_of_le lighter
      (Counting.sum_filter_le _ moves.isUntouched_le known)
  · have paid := Counting.sum_filter_add_le (fun item => 1 + resolver.fanOut item)
      moves.isUntouched_le (within.queue visit queued) untouched entered
    omega

/-- A walk comes to its end with the attempt. -/
inductive Ends (resolver : Resolver) : Walk → Attempt Unit → Prop where
  | stop {walk : Walk} {attempt : Attempt Unit} :
      walk.step resolver = .stopped attempt → Ends resolver walk attempt
  | go {walk next : Walk} {attempt : Attempt Unit} :
      walk.step resolver = .going next → Ends resolver next attempt → Ends resolver walk attempt

theorem Ends.unique {attempt other : Attempt Unit} (ends : Ends resolver walk attempt)
    (endsToo : Ends resolver walk other) : other = attempt := by
  induction ends with
  | stop stopped =>
      cases endsToo with
      | stop stoppedToo => exact Progress.stopped.inj (stoppedToo.symm.trans stopped)
      | go goes => cases goes.symm.trans stopped
  | go goes _ ih =>
      cases endsToo with
      | stop stopped => cases stopped.symm.trans goes
      | go goesToo later =>
          cases goesToo.symm.trans goes
          exact ih later

/-- The end of a walk is a walk that stops. -/
theorem Ends.exists_last {attempt : Attempt Unit} (ends : Ends resolver walk attempt) :
    ∃ last, Reaches resolver walk last ∧ Stops resolver last attempt := by
  induction ends with
  | @stop walk attempt stopped => exact ⟨walk, .refl, .of_step stopped⟩
  | @go walk next attempt goes _ ih =>
      obtain ⟨last, reaches, stops⟩ := ih
      exact ⟨last, .head (.of_step goes) reaches, stops⟩

/-- A walk whose steps suffice comes to its end. -/
theorem ends_run {steps : Nat} (within : Within resolver known walk)
    (enough : walk.remaining resolver known ≤ steps) :
    Ends resolver walk (run resolver steps walk) := by
  induction steps generalizing walk with
  | zero =>
      unfold remaining at enough
      have empty : walk.queue = [] := List.length_eq_zero_iff.mp (by omega)
      refine .stop ?_
      unfold step
      rw [empty]
      rfl
  | succ steps ih =>
      unfold run
      cases taken : walk.step resolver with
      | stopped attempt => exact .stop taken
      | going next =>
          have moves := Moves.of_step taken
          have shorter := moves.remaining_lt within
          exact .go taken (ih (moves.within within) (by omega))

theorem capacity_eq (resolver : Resolver) (queue : List Visit) :
    capacity resolver queue =
      queue.length + ((queue.map (·.item) ++ resolver.mentionable).map
        fun item => 1 + resolver.fanOut item).sum := by
  unfold capacity
  generalize queue.length = total
  induction queue.map (·.item) ++ resolver.mentionable generalizing total with
  | nil => rfl
  | cons item rest ih =>
      rw [List.foldl_cons, ih, List.map_cons, List.sum_cons]
      omega

end TaskPlanner.Walk

namespace TaskPlanner.Plan

/-- Every expansion is a walk to its end. -/
theorem ends_expand (resolver : Resolver) (plan : Plan) (queue : List Visit) :
    Walk.Ends resolver { plan, queue } (plan.expand resolver queue) := by
  let known := queue.map (·.item) ++ resolver.mentionable
  have within : Walk.Within resolver known { plan, queue } :=
    ⟨List.subset_append_right _ _,
      fun visit member => List.mem_append_left _ (List.mem_map_of_mem member),
      fun _ absent => absurd absent List.not_mem_nil⟩
  refine Walk.ends_run within ?_
  rw [Walk.capacity_eq]
  have bound := Counting.sum_filter_le (fun item => 1 + resolver.fanOut item)
    (fun item (_ : Walk.isUntouched { plan, queue } item = true) =>
      (rfl : (fun _ : WorkItem => true) item = true)) known
  rw [List.filter_true] at bound
  exact Nat.add_le_add_left bound queue.length

theorem exists_last_expand (resolver : Resolver) (plan : Plan) (queue : List Visit) :
    ∃ last, Walk.Reaches resolver { plan, queue } last ∧
      Walk.Stops resolver last (plan.expand resolver queue) :=
  (plan.ends_expand resolver queue).exists_last

end TaskPlanner.Plan
