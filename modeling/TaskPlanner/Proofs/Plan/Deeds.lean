import TaskPlanner.Proofs.Plan.EarlyOrdering
import TaskPlanner.Proofs.Plan.Seeding

/-! What was done to a plan since it was made or closed, and what the plan still knows about it:
whether it was seeded, whether it was put in order last, and which ordinals were used. A plan takes
seeds only if none of this speaks against it, and numbers its batches beyond the ordinals used. -/

set_option autoImplicit false

namespace TaskPlanner

/-- The ordinal that has no successor. -/
def Ordinal.last : Ordinal := ⟨4294967295, by decide⟩

theorem Ordinal.lt_next {ordinal : Ordinal} (notLast : ordinal ≠ .last) :
    ordinal < ordinal.next := by
  have apart : ordinal.val ≠ 4294967295 := fun same => notLast (Fin.ext same)
  unfold next
  split
  next => exact Fin.lt_def.mpr (Nat.lt_succ_self _)
  next full =>
    have bound := ordinal.isLt
    omega

theorem Ordinal.le_last (ordinal : Ordinal) : ordinal ≤ .last :=
  Nat.le_of_lt_succ ordinal.isLt

namespace Plan

/-! ## Deeds -/

/-- Something done to a plan that it takes note of. -/
inductive Deed where
  /-- The items were requested as the batch `ordinal`, even if in vain. -/
  | request (ordinal : Ordinal) (items : List WorkItem)
  | plant (seeds : List Seed)
  /-- The last items of the index were cut off. -/
  | cut
  /-- The plan was put in order. -/
  | order

/-- What an edit does to a plan, if it is not refused. -/
def deedsOf (plan : Plan) : Edit → List Deed
  | .accept _ | .proceed _ | .mention _ | .onComplete _ => []
  | .take _ submission =>
      if plan.isFinalized then []
      else [.request (plan.ordinalFor submission) submission.requested]
  | .seed seeds =>
      match (plan.seed seeds).result with
      | .ok _ => [.plant seeds]
      | .error _ => []
  | .determine =>
      match plan.determine.result with
      | .ok _ => [.order]
      | .error _ => []
  | .retainFirst count =>
      if plan.isFinalized || (plan.index.beyond count).isEmpty then [] else [.cut]

/-- A plan, and what was done to it since it was made or closed, the latest first. -/
inductive Records : Plan → List Deed → Prop where
  | new (name : String) : Records { name } []
  | mark {plan : Plan} {log : List Deed} (item : WorkItem) (change : Node → Node) :
      Records plan log → Records (plan.updateNode item change) log
  | edit {plan : Plan} {log : List Deed} (edit : Edit) :
      Records plan log → Records (plan.edited edit) (plan.deedsOf edit ++ log)
  | finalize {plan : Plan} {log : List Deed} :
      Records plan log → Records plan.finalize.plan (plan.deedsOf .determine ++ log)
  | close {plan : Plan} {log : List Deed} (executed : List WorkItem) :
      Records plan log → Records (plan.close executed) []

/-- The ordinal that was used, if any. -/
def Deed.ordinal? : Deed → Option Ordinal
  | request ordinal _ => some ordinal
  | plant _ | cut | order => none

/-- The plan knows what was done to it. -/
structure Remembers (plan : Plan) (log : List Deed) : Prop where
  planted : plan.isPrecomputed = true ↔ ∃ seeds, .plant seeds ∈ log
  ordered : plan.needsOrdering = false ↔ ∀ deed ∈ log.head?, deed = .order
  counted : ∀ used ∈ log.filterMap Deed.ordinal?, used.next ≤ plan.nextOrdinal
  batched : plan.batches.ordinals ⊆ log.filterMap Deed.ordinal?

variable {plan before after : Plan} {log : List Deed} {submission : Submission}

theorem remembers_nil (fresh : plan.isPrecomputed = false) (settled : plan.needsOrdering = false)
    (unbatched : plan.batches.ordinals = []) : plan.Remembers [] where
  planted := by simp [fresh]
  ordered := by simp [settled]
  counted := nofun
  batched := by simp [unbatched]

theorem Remembers.of_eq (remembers : before.Remembers log)
    (planted : after.isPrecomputed = before.isPrecomputed)
    (ordered : after.needsOrdering = before.needsOrdering)
    (counted : after.nextOrdinal = before.nextOrdinal)
    (batched : after.batches = before.batches) : after.Remembers log := by
  refine ⟨?_, ?_, ?_, ?_⟩
  · rw [planted]
    exact remembers.planted
  · rw [ordered]
    exact remembers.ordered
  · rw [counted]
    exact remembers.counted
  · rw [batched]
    exact remembers.batched

/-- A deed that uses no ordinal counts only for what the plan knows of seeds and of its order. -/
theorem Remembers.cons {deed : Deed} (remembers : before.Remembers log)
    (unnumbered : deed.ordinal? = none)
    (planted : after.isPrecomputed = true ↔
      (∃ seeds, deed = .plant seeds) ∨ before.isPrecomputed = true)
    (ordered : after.needsOrdering = false ↔ deed = .order)
    (counted : after.nextOrdinal = before.nextOrdinal)
    (batched : after.batches = before.batches) : after.Remembers (deed :: log) := by
  refine ⟨?_, ?_, ?_, ?_⟩
  · rw [planted, remembers.planted]
    simp only [List.mem_cons, exists_or, eq_comm]
  · rw [ordered]
    simp
  · rw [counted, List.filterMap_cons_none unnumbered]
    exact remembers.counted
  · rw [batched, List.filterMap_cons_none unnumbered]
    exact remembers.batched

/-! ## Requests -/

theorem isPrecomputed_take (plan : Plan) (resolver : Resolver) (submission : Submission) :
    (plan.take resolver submission).plan.isPrecomputed = plan.isPrecomputed := by
  cases finalized : plan.isFinalized with
  | true => rw [take_of_isFinalized finalized]
  | false =>
      rw [take_keepsRequests resolver finalized submission]
      exact prepare_induction (fun other => other.isPrecomputed = plan.isPrecomputed) rfl
        (fun _ _ => id) (fun _ _ => id) fun _ _ _ => id

theorem Remembers.take (remembers : plan.Remembers log) (unfinalized : plan.isFinalized = false)
    (resolver : Resolver) (submission : Submission) :
    (plan.take resolver submission).plan.Remembers
      (.request (plan.ordinalFor submission) submission.requested :: log) := by
  obtain ⟨later, beyond⟩ : plan.nextOrdinal ≤ (plan.take resolver submission).plan.nextOrdinal ∧
      (plan.ordinalFor submission).next ≤ (plan.take resolver submission).plan.nextOrdinal := by
    rw [nextOrdinal_take unfinalized]
    split
    next less => exact ⟨Fin.le_of_lt less, Fin.le_refl _⟩
    next within => exact ⟨Fin.le_refl _, Fin.not_lt.mp within⟩
  refine ⟨?_, ?_, fun used member => ?_, fun ordinal member => ?_⟩
  · rw [isPrecomputed_take, remembers.planted]
    simp
  · rw [needsOrdering_take unfinalized]
    simp
  · rcases List.mem_cons.mp member with rfl | earlier
    · exact beyond
    · exact Fin.le_trans (remembers.counted used earlier) later
  · rcases (mem_ordinals_take unfinalized resolver submission).mp member with earlier | ⟨-, rfl⟩
    · exact List.mem_cons_of_mem _ (remembers.batched earlier)
    · exact List.mem_cons_self

/-! ## Seeds -/

/-- Seeds leave the batches of a plan alone, and mark it only if all of them are planted. -/
theorem seed_frame (plan : Plan) (seeds : List Seed) :
    (plan.seed seeds).plan.nextOrdinal = plan.nextOrdinal ∧
      (plan.seed seeds).plan.batches = plan.batches :=
  ⟨seed_induction (fun other => other.nextOrdinal = plan.nextOrdinal) rfl (fun _ _ => id)
      (fun _ _ _ => id) (fun _ => id) seeds,
    seed_induction (fun other => other.batches = plan.batches) rfl (fun _ _ => id)
      (fun _ _ _ => id) (fun _ => id) seeds⟩

theorem flags_seed_of_ok {items : List WorkItem} {seeds : List Seed}
    (planted : (plan.seed seeds).result = .ok items) :
    (plan.seed seeds).plan.isPrecomputed = true ∧
      (plan.seed seeds).plan.needsOrdering = true := by
  unfold seed at planted ⊢
  split at planted
  next => cases planted
  next unfinalized =>
    rw [if_neg unfinalized]
    split at planted
    next => cases planted
    next fresh =>
      rw [if_neg fresh]
      dsimp only at planted ⊢
      split at planted
      next => cases planted
      next => exact ⟨rfl, rfl⟩

theorem flags_seed_of_error {error : PlanError} {seeds : List Seed}
    (failed : (plan.seed seeds).result = .error error) :
    (plan.seed seeds).plan.isPrecomputed = plan.isPrecomputed ∧
      (plan.seed seeds).plan.needsOrdering = plan.needsOrdering := by
  rcases seed_error_cases failed with ⟨_, same⟩ | ⟨_, _, _, planted, _⟩
  · rw [same]
    exact ⟨rfl, rfl⟩
  · rw [planted, plantAll_frame]
    exact ⟨rfl, rfl⟩

theorem Remembers.seed (remembers : plan.Remembers log) (seeds : List Seed) :
    (plan.seed seeds).plan.Remembers (plan.deedsOf (.seed seeds) ++ log) := by
  obtain ⟨counted, batched⟩ := plan.seed_frame seeds
  unfold deedsOf
  dsimp only
  cases result : (plan.seed seeds).result with
  | error error =>
      obtain ⟨planted, ordered⟩ := flags_seed_of_error result
      exact remembers.of_eq planted ordered counted batched
  | ok items =>
      obtain ⟨planted, ordered⟩ := flags_seed_of_ok result
      exact remembers.cons rfl (by simp [planted]) (by simp [ordered]) counted batched

/-! ## Ordering, cutting back and closing -/

theorem Remembers.determine (remembers : plan.Remembers log) :
    plan.determine.plan.Remembers (plan.deedsOf .determine ++ log) := by
  have batched := plan.batches_determine
  have determined := plan.determines
  unfold deedsOf
  dsimp only
  generalize plan.determine = attempt at determined batched ⊢
  cases determined with
  | settled settled =>
      exact remembers.cons rfl (by simp) (by simp [settled]) rfl batched
  | failed _ _ => exact remembers.of_eq rfl rfl rfl batched
  | scheduled _ _ => exact remembers.cons rfl (by simp) (by simp) rfl batched

theorem Remembers.retainFirst (remembers : plan.Remembers log) (count : Nat) :
    (plan.retainFirst count).plan.Remembers (plan.deedsOf (.retainFirst count) ++ log) := by
  unfold deedsOf Plan.retainFirst
  dsimp only
  split
  next finalized =>
    rw [finalized]
    exact remembers
  next unfinalized =>
    rw [Bool.eq_false_iff.mpr unfinalized, Bool.false_or]
    split
    next => exact remembers
    next => exact remembers.cons rfl (by simp) (by simp) rfl rfl

theorem Remembers.edited (remembers : plan.Remembers log) (edit : Edit) :
    (plan.edited edit).Remembers (plan.deedsOf edit ++ log) := by
  cases edit with
  | accept | proceed | mention | onComplete => exact remembers.of_eq rfl rfl rfl rfl
  | take resolver submission =>
      show (plan.take resolver submission).plan.Remembers _
      unfold deedsOf
      cases finalized : plan.isFinalized with
      | true =>
          rw [take_of_isFinalized finalized]
          exact remembers
      | false => exact remembers.take finalized resolver submission
  | seed seeds => exact remembers.seed seeds
  | determine => exact remembers.determine
  | retainFirst count => exact remembers.retainFirst count

/-- Whatever is done to a plan, it knows the latest deed, whether it was seeded, and which ordinals
were used. -/
theorem Records.remembers (records : Records plan log) : plan.Remembers log := by
  induction records with
  | new => exact remembers_nil rfl rfl rfl
  | mark _ _ _ ih => exact ih.of_eq rfl rfl rfl rfl
  | edit edit _ ih => exact ih.edited edit
  | finalize _ ih =>
      have determined := ih.determine
      unfold Plan.finalize
      dsimp only
      split
      · exact determined
      · exact determined.of_eq rfl rfl rfl rfl
  | close _ _ _ => exact remembers_nil rfl rfl rfl

/-! ## Refused seeds -/

theorem seed_eq_alreadyScheduled_iff (unfinalized : plan.isFinalized = false) (seeds : List Seed) :
    plan.seed seeds = ⟨.error .alreadyScheduled, plan⟩ ↔
      plan.needsOrdering = true ∨ plan.isPrecomputed = true ∨ plan.index.items ≠ [] := by
  have guard : (plan.needsOrdering || plan.isPrecomputed || !plan.index.isEmpty) = true ↔
      plan.needsOrdering = true ∨ plan.isPrecomputed = true ∨ plan.index.items ≠ [] := by
    simp [ItemSet.isEmpty, or_assoc]
  rw [← guard]
  constructor
  · intro refused
    by_contra fresh
    unfold seed at refused
    rw [if_neg (by simp [unfinalized]), if_neg fresh] at refused
    dsimp only at refused
    split at refused
    next error failed =>
      obtain ⟨_, _, _, unresolved, _⟩ := (plantAll_spec _ _ _).2.2 failed
      rw [unresolved] at refused
      cases congrArg Attempt.result refused
    next => cases congrArg Attempt.result refused
  · intro filled
    rw [seed, if_neg (by simp [unfinalized]), if_pos filled]

/-- A plan refuses seeds if and only if it was seeded before, something was done to it since it was
last put in order, or it indexes an item. -/
theorem seed_refused_iff (records : Records plan log) (unfinalized : plan.isFinalized = false)
    (seeds : List Seed) :
    plan.seed seeds = ⟨.error .alreadyScheduled, plan⟩ ↔
      (∃ planted, .plant planted ∈ log) ∨ (∃ deed ∈ log.head?, deed ≠ .order) ∨
        plan.index.items ≠ [] := by
  have remembers := records.remembers
  have pending : plan.needsOrdering = true ↔ ∃ deed ∈ log.head?, deed ≠ .order := by
    rw [← Bool.not_eq_false, remembers.ordered]
    simp
  rw [seed_eq_alreadyScheduled_iff unfinalized, remembers.planted, pending]
  exact or_left_comm

/-- A plan that was cut back to nothing. -/
def clearedPlan : Plan :=
  ((examplePlan.take exampleResolver (.tasks ["compile"] none)).plan.retainFirst 0).plan

theorem records_clearedPlan :
    Records clearedPlan [.cut, .request .first [.task "compile"]] :=
  .edit (.retainFirst 0) (.edit (.take exampleResolver (.tasks ["compile"] none))
    (.edit (.accept _) (.new "build")))

/-- Nothing is indexed any more, but the plan has not been put in order since. -/
theorem seed_refused_clearedPlan :
    Records clearedPlan [.cut, .request .first [.task "compile"]] ∧
      clearedPlan.isFinalized = false ∧ clearedPlan.index.items = [] ∧
      clearedPlan.seed [{ item := .task "test" }] =
        ⟨.error .alreadyScheduled, clearedPlan⟩ :=
  ⟨records_clearedPlan, rfl, rfl, (seed_refused_iff records_clearedPlan rfl _).mpr
    (.inr (.inl ⟨.cut, rfl, Deed.noConfusion⟩))⟩

/-- The documentation was requested, but the filter left it out. The plan was put in order then. -/
def sparedPlan : Plan :=
  (examplePlan.take exampleResolver (.tasks ["document"] none)).plan.determine.plan

/-- Something was requested, but the plan takes seeds. -/
theorem not_refused_sparedPlan :
    Records sparedPlan [.order, .request .first [.task "document"]] ∧
      sparedPlan.isFinalized = false ∧
      (sparedPlan.seed [{ item := .task "compile" }]).result = .ok [.task "compile"] ∧
      (sparedPlan.seed [{ item := .task "compile" }]).plan.index.items = [.task "compile"] :=
  ⟨.edit .determine (.edit (.take exampleResolver (.tasks ["document"] none))
    (.edit (.accept _) (.new "build"))), rfl, rfl, rfl⟩

end Plan

end TaskPlanner
