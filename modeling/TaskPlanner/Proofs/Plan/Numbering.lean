import TaskPlanner.Proofs.Plan.Deeds
import TaskPlanner.Proofs.Plan.Joining

/-! The ordinals of batches. A request that names no ordinal is given one behind all that were used,
and opens a batch of its own there, until the ordinals are used up. -/

set_option autoImplicit false

namespace TaskPlanner

/-! ## The last batch -/

namespace Batches

variable {ordinal : Ordinal} {change : Batch → Batch} {batches : List Batch}

theorem changeIn_eq_concat (behind : ∀ other ∈ batches, other.ordinal < ordinal) :
    changeIn ordinal change batches = batches ++ [change { ordinal }] := by
  induction batches with
  | nil => rfl
  | cons head rest ih =>
      have first := behind head List.mem_cons_self
      rw [changeIn, if_neg (Fin.lt_asymm first), if_neg (Fin.ne_of_gt first),
        ih fun other member => behind other (List.mem_cons_of_mem _ member)]
      rfl

theorem changeIn_concat {entries : ItemSet} (behind : ∀ other ∈ batches, other.ordinal < ordinal) :
    changeIn ordinal change (batches ++ [⟨ordinal, entries⟩]) =
      batches ++ [change ⟨ordinal, entries⟩] := by
  induction batches with
  | nil => simp [changeIn]
  | cons head rest ih =>
      have first := behind head List.mem_cons_self
      rw [List.cons_append, changeIn, if_neg (Fin.lt_asymm first), if_neg (Fin.ne_of_gt first),
        ih fun other member => behind other (List.mem_cons_of_mem _ member)]
      rfl

/-- Items that are entered behind all batches make up one more batch. -/
theorem foldl_addEntry_of_lt {registry : Batches} {items : List WorkItem} (some : items ≠ [])
    (behind : ∀ other ∈ registry.batches, other.ordinal < ordinal) :
    (items.foldl (fun registry item => registry.addEntry ordinal item) registry).batches =
      registry.batches ++ [{ ordinal, entries := ({} : ItemSet).insertAll items }] := by
  have joining : ∀ (items : List WorkItem) (entries : ItemSet),
      (items.foldl (fun (registry : Batches) item => registry.addEntry ordinal item)
        { batches := registry.batches ++ [{ ordinal, entries }] }).batches =
          registry.batches ++ [{ ordinal, entries := entries.insertAll items }] := by
    intro items
    induction items with
    | nil => exact fun _ => rfl
    | cons item rest ih =>
        intro entries
        rw [List.foldl_cons, addEntry, changeIn_concat behind]
        exact ih (entries.insert item)
  obtain ⟨first, rest, rfl⟩ := List.exists_cons_of_ne_nil some
  rw [List.foldl_cons, addEntry, changeIn_eq_concat behind]
  exact joining rest _

end Batches

namespace Plan

variable {plan : Plan} {log : List Deed} {resolver : Resolver} {submission : Submission}
  {ordinal : Ordinal} {item : WorkItem}

/-! ## Requested items -/

theorem Requests.of_request {later : Ordinal} {other : WorkItem}
    (requests : (plan.request later other).Requests ordinal item) :
    plan.Requests ordinal item ∨ ordinal = later ∧ item = other := by
  obtain ⟨batch, member, rfl, requested⟩ := requests
  exact Batches.mem_entries_addEntry member requested

theorem requests_take_iff (unfinalized : plan.isFinalized = false) :
    (plan.take resolver submission).plan.Requests ordinal item ↔
      plan.Requests ordinal item ∨
        ordinal = plan.ordinalFor submission ∧ item ∈ submission.requested := by
  constructor
  · intro requests
    unfold Requests at requests
    rw [take_keepsRequests resolver unfinalized submission] at requests
    refine prepare_induction (fun other => other.Requests ordinal item →
      plan.Requests ordinal item ∨
        ordinal = plan.ordinalFor submission ∧ item ∈ submission.requested)
      .inl (fun _ _ => id) (fun _ _ => id) (fun other entry requested ih added => ?_) requests
    rcases added.of_request with earlier | ⟨same, rfl⟩
    · exact ih earlier
    · exact .inr ⟨same, requested⟩
  · rintro (earlier | ⟨rfl, requested⟩)
    · exact earlier.take unfinalized resolver submission
    · exact requests_take unfinalized resolver requested

/-! ## Requests without an ordinal -/

/-- The next ordinal is behind all that were used, but for the last one of all. -/
theorem Remembers.lt_nextOrdinal (remembers : plan.Remembers log) {used : Ordinal}
    (member : used ∈ log.filterMap Deed.ordinal?) (notLast : used ≠ .last) :
    used < plan.nextOrdinal :=
  Fin.lt_of_lt_of_le (Ordinal.lt_next notLast) (remembers.counted used member)

theorem Remembers.nextOrdinal_of_last (remembers : plan.Remembers log)
    (member : Ordinal.last ∈ log.filterMap Deed.ordinal?) : plan.nextOrdinal = .last :=
  Fin.le_antisymm plan.nextOrdinal.le_last (remembers.counted _ member)

/-- A request that names no ordinal is given one behind all that were used, and what it names is a
batch of its own, behind all others. If the last ordinal was used, it is given that one again, and
what it names joins that batch. -/
theorem implicit_batch (records : Records plan log) (unfinalized : plan.isFinalized = false)
    (implicit : submission.ordinal? = none) (resolver : Resolver) :
    let ordinal := plan.ordinalFor submission
    let after := (plan.take resolver submission).plan
    (.last ∉ log.filterMap Deed.ordinal? →
      (∀ used ∈ log.filterMap Deed.ordinal?, used < ordinal) ∧
        (submission.requested ≠ [] → ∃ batch,
          after.batches.batches = plan.batches.batches ++ [batch] ∧ batch.ordinal = ordinal ∧
            ∀ item, item ∈ batch.entries ↔ item ∈ submission.requested)) ∧
      (.last ∈ log.filterMap Deed.ordinal? → ordinal = .last ∧
        ∀ item, after.Requests .last item ↔
          plan.Requests .last item ∨ item ∈ submission.requested) := by
  intro ordinal after
  have remembers := records.remembers
  have next : ordinal = plan.nextOrdinal := by
    show submission.ordinal?.getD plan.nextOrdinal = plan.nextOrdinal
    rw [implicit]
    rfl
  constructor
  · intro room
    have later : ∀ used ∈ log.filterMap Deed.ordinal?, used < ordinal := by
      intro used member
      rw [next]
      exact remembers.lt_nextOrdinal member fun last => room (last ▸ member)
    refine ⟨later, fun some => ?_⟩
    have arranged := mt WorkItem.arranged_eq_nil.mp some
    refine ⟨{ ordinal, entries := ({} : ItemSet).insertAll (WorkItem.arranged submission.requested) },
      ?_, rfl, fun item => ?_⟩
    · show (plan.take resolver submission).plan.batches.batches = _
      rw [batches_take unfinalized]
      exact Batches.foldl_addEntry_of_lt arranged fun other member =>
        later _ (remembers.batched (List.mem_map_of_mem member))
    · rw [ItemSet.mem_insertAll, WorkItem.mem_arranged]
      exact or_iff_right List.not_mem_nil
  · intro full
    have last : ordinal = .last := next.trans (remembers.nextOrdinal_of_last full)
    refine ⟨last, fun item => ?_⟩
    rw [requests_take_iff unfinalized, show plan.ordinalFor submission = .last from last]
    simp

/-- A plan with one request, for the third batch. -/
def thirdPlan : Plan :=
  (({ name := "build" } : Plan).take exampleResolver
    (.tasks ["compile"] (some (.ofPosition 3)))).plan

/-- The tests are the fourth batch. -/
theorem implicit_batch_thirdPlan :
    Records thirdPlan [.request (.ofPosition 3) [.task "compile"]] ∧
      thirdPlan.isFinalized = false ∧
      Ordinal.ofPosition 3 < thirdPlan.ordinalFor (.tasks ["test"] none) ∧
      ∃ batch, (thirdPlan.take exampleResolver (.tasks ["test"] none)).plan.batches.batches =
        thirdPlan.batches.batches ++ [batch] ∧ .task "test" ∈ batch.entries := by
  have records : Records thirdPlan [.request (.ofPosition 3) [.task "compile"]] :=
    .edit (.take exampleResolver (.tasks ["compile"] (some (.ofPosition 3)))) (.new "build")
  have implicit : (Submission.tasks ["test"] none).ordinal? = none := rfl
  obtain ⟨later, opens⟩ := (implicit_batch records rfl implicit exampleResolver).1 (by decide)
  obtain ⟨batch, appended, _, entries⟩ := opens (by decide)
  exact ⟨records, rfl, later _ List.mem_cons_self, batch, appended,
    (entries _).mpr List.mem_cons_self⟩

/-- A plan whose only request was for the last batch of all. -/
def lastPlan : Plan :=
  (({ name := "build" } : Plan).take exampleResolver (.tasks ["compile"] (some .last))).plan

/-- The next request is for that batch, too. -/
theorem not_later_lastPlan :
    Records lastPlan [.request .last [.task "compile"]] ∧ lastPlan.isFinalized = false ∧
      ¬ Ordinal.last < lastPlan.ordinalFor (.tasks ["test"] none) ∧
      (lastPlan.take exampleResolver (.tasks ["test"] none)).plan.batches.batches =
        [{ ordinal := .last, entries := { items := [.task "compile", .task "test"] } }] :=
  ⟨.edit (.take exampleResolver (.tasks ["compile"] (some .last))) (.new "build"), rfl,
    Fin.lt_irrefl _, rfl⟩

end Plan

end TaskPlanner
