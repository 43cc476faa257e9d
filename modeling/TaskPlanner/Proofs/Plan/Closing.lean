import TaskPlanner.Proofs.Discovery.Pursuit
import TaskPlanner.Proofs.Plan.Leftovers
import TaskPlanner.Resolver.Rows

/-! Closing a plan resets the nodes of all listed items. Traces of requests stay behind in strays,
which a request met without listing them, and the next plan finds them there. -/

set_option autoImplicit false

namespace TaskPlanner

namespace Resolver

variable {resolver : Resolver} {item : WorkItem} {resolution : Resolution}

/-- The items that join the batch of the item, if the resolver answers about it. -/
def joining (resolver : Resolver) (item : WorkItem) : List WorkItem :=
  match resolver.answer item with
  | .ok resolution => resolution.relations.hardSuccessors
  | .error _ => []

/-- The items that the item waits for, if the resolver answers about it. -/
def awaited (resolver : Resolver) (item : WorkItem) : List WorkItem :=
  match resolver.answer item with
  | .ok resolution => resolution.relations.dependencies
  | .error _ => []

theorem joining_of_ok (answered : resolver.answer item = .ok resolution) :
    resolver.joining item = resolution.relations.hardSuccessors := by
  unfold joining
  rw [answered]

theorem awaited_of_ok (answered : resolver.answer item = .ok resolution) :
    resolver.awaited item = resolution.relations.dependencies := by
  unfold awaited
  rw [answered]

/-- What gets traces when a request asks about the item. -/
def involved (resolver : Resolver) (item : WorkItem) : List WorkItem :=
  item :: resolver.joining item

end Resolver

namespace Plan

variable {plan : Plan} {resolver : Resolver} {strays asked : List WorkItem}

/-- Beside earlier strays, only items that the plan has been asking about since, and items that
joined their batches, have traces of requests. -/
def Traces (resolver : Resolver) (strays asked : List WorkItem) (plan : Plan) : Prop :=
  ∃ calls, plan.inquiries.asked = asked ++ calls ∧
    plan.IsTraced (strays ++ calls.flatMap resolver.involved)

theorem Traces.adds {after : Plan} (traces : plan.Traces resolver strays asked)
    (adds : plan.toInventory.Adds after.toInventory)
    (inquiries : after.inquiries = plan.inquiries) : after.Traces resolver strays asked := by
  obtain ⟨calls, same, traced⟩ := traces
  exact ⟨calls, inquiries ▸ same, traced.adds adds⟩

theorem Traces.inquire (traces : plan.Traces resolver strays asked) (item : WorkItem) :
    ∃ calls, item ∈ calls ∧ (plan.inquire item).inquiries.asked = asked ++ calls ∧
      (plan.inquire item).IsTraced (strays ++ calls.flatMap resolver.involved) := by
  obtain ⟨calls, same, traced⟩ := traces
  have last : item ∈ calls ++ [item] := List.mem_append_right _ List.mem_cons_self
  refine ⟨calls ++ [item], last, ?_, isTraced_inquire (traced.mono ?_) ?_⟩
  · show plan.inquiries.asked ++ [item] = asked ++ (calls ++ [item])
    rw [same, List.append_assoc]
  · rw [List.flatMap_append, ← List.append_assoc]
    exact List.subset_append_left _ _
  · exact List.mem_append_right _
      (List.mem_flatMap.mpr ⟨item, last, List.mem_cons_self⟩)

theorem Traces.adopt {item : WorkItem} {resolution : Resolution}
    (traces : plan.Traces resolver strays asked)
    (answered : resolver.answer item = .ok resolution) :
    ((plan.inquire item).adopt item resolution).Traces resolver strays asked := by
  obtain ⟨calls, called, same, traced⟩ := traces.inquire item
  refine ⟨calls, same, isTraced_adopt traced ?_ fun other joining => ?_⟩
  · exact congrArg Node.required (plan.catalog.node_update_self item _)
  · refine List.mem_append_right _ (List.mem_flatMap.mpr ⟨item, called, ?_⟩)
    rw [Resolver.involved, Resolver.joining_of_ok answered]
    exact List.mem_cons_of_mem _ joining

end Plan

namespace Walk

variable {walk next : Walk} {resolver : Resolver} {strays asked : List WorkItem}

/-! ## Traces of a walk -/

theorem Moves.traces (moves : Moves resolver walk next)
    (traces : walk.plan.Traces resolver strays asked) :
    next.plan.Traces resolver strays asked := by
  cases moves with
  | drop => exact traces
  | setAside => exact traces.adds (walk.plan.adds_setAside _) rfl
  | leave => exact traces.adds (walk.plan.adds_enroll _) rfl
  | descend _ _ _ _ answered => exact traces.adopt answered

theorem Reaches.traces {last : Walk} (reaches : Reaches resolver walk last)
    (traces : walk.plan.Traces resolver strays asked) :
    last.plan.Traces resolver strays asked := by
  induction reaches with
  | refl => exact traces
  | tail _ moves ih => exact moves.traces ih

theorem Stops.traces {attempt : Attempt Unit} (stops : Stops resolver walk attempt)
    (traces : walk.plan.Traces resolver strays asked) :
    attempt.plan.Traces resolver strays asked := by
  cases stops with
  | done => exact traces
  | @unresolved visit =>
      obtain ⟨calls, _, same, traced⟩ := traces.inquire visit.item
      exact ⟨calls, same, traced⟩
  | cycle _ _ _ _ answered => exact traces.adopt answered

end Walk

namespace Plan

variable {plan : Plan} {resolver : Resolver} {strays : List WorkItem} {item : WorkItem}
  {submission : Submission}

/-- The items that a request has asked about. -/
def askedBy (plan : Plan) (resolver : Resolver) (submission : Submission) : List WorkItem :=
  (plan.take resolver submission).plan.inquiries.asked.drop plan.inquiries.asked.length

/-- The items that a request asks about or lets join a batch, and does not list. If the request
succeeds, it lists what it asks about, and a stray joined a batch although it cannot run, or
although nothing that the request asked about waits for it. -/
def straysOf (plan : Plan) (resolver : Resolver) (submission : Submission) : List WorkItem :=
  let attempt := plan.take resolver submission
  let asked := plan.askedBy resolver submission
  match attempt.result with
  | .error _ => (asked.flatMap resolver.involved).filter (· ∉ attempt.plan.listed)
  | .ok () => (asked.flatMap resolver.joining).filter fun item =>
      item ∉ attempt.plan.listed ∧ ((attempt.plan.node item).cannotRun = true ∨
        ∀ source ∈ asked, item ∉ resolver.awaited source)

/-- A request that succeeds lists what it asks about, and has discovered what that waits for, unless
it cannot run. -/
theorem listed_of_askedBy (taken : (plan.take resolver submission).result = .ok ())
    {source : WorkItem} (called : source ∈ plan.askedBy resolver submission) :
    source ∈ (plan.take resolver submission).plan.index ∧
      ∀ item ∈ resolver.awaited source,
        ((plan.take resolver submission).plan.node item).processed = true ∨
          ((plan.take resolver submission).plan.node item).cannotRun = true := by
  obtain ⟨last, reaches, ended, same⟩ := exists_last_of_take taken
  have pursues : Walk.Pursues resolver plan.inquiries.asked
      { plan := plan.prepare submission, queue := submission.visits } := by
    refine ⟨⟨nofun, List.nil_subset _, List.nodup_nil⟩, [], ?_, nofun⟩
    rw [(sameFindings_prepare plan submission).inquiries, List.append_nil]
  obtain ⟨calls, asked, known⟩ := (reaches.pursues pursues).ended ended
  rw [← same] at asked known
  rw [askedBy, asked, List.drop_left] at called
  obtain ⟨indexed, resolution, answered, dependencies⟩ := known source called
  rw [Resolver.awaited_of_ok answered]
  exact ⟨indexed, dependencies⟩

/-- What a request involves and does not list is one of its strays if it is not discovered. -/
theorem mem_straysOf
    (undiscovered : ((plan.take resolver submission).plan.node item).processed = false)
    (unlisted : item ∉ (plan.take resolver submission).plan.listed)
    (involved : item ∈ (plan.askedBy resolver submission).flatMap resolver.involved) :
    item ∈ plan.straysOf resolver submission := by
  unfold straysOf
  dsimp only
  split
  next => exact List.mem_filter.mpr ⟨involved, decide_eq_true unlisted⟩
  next taken =>
    obtain ⟨source, called, involves⟩ := List.mem_flatMap.mp involved
    rcases List.mem_cons.mp involves with rfl | joins
    · exact absurd (mem_listed.mpr (.inl (listed_of_askedBy taken called).1)) unlisted
    · refine List.mem_filter.mpr
        ⟨List.mem_flatMap.mpr ⟨source, called, joins⟩, decide_eq_true ⟨unlisted, ?_⟩⟩
      refine or_iff_not_imp_left.mpr fun runs other asked waits => ?_
      have discovered := ((listed_of_askedBy taken asked).2 item waits).resolve_right runs
      rw [undiscovered] at discovered
      cases discovered

theorem isTraced_take (traced : plan.IsTraced strays) (resolver : Resolver)
    (submission : Submission) :
    (plan.take resolver submission).plan.IsTraced
      (strays ++ plan.straysOf resolver submission) := by
  have traces : (plan.take resolver submission).plan.Traces resolver strays
      plan.inquiries.asked := by
    have unasked : plan.Traces resolver strays plan.inquiries.asked :=
      ⟨[], (List.append_nil _).symm, traced.mono (List.subset_append_left _ _)⟩
    cases finalized : plan.isFinalized with
    | true =>
        rw [take_of_isFinalized finalized]
        exact unasked
    | false =>
        obtain ⟨last, reaches, stops⟩ := exists_last_take resolver finalized submission
        exact stops.traces (reaches.traces (unasked.adds (plan.adds_prepare submission)
          (sameFindings_prepare plan submission).inquiries))
  obtain ⟨calls, same, traced⟩ := traces
  intro item unlisted
  have leftover := traced item unlisted
  refine leftover.mono fun known => ?_
  rcases List.mem_append.mp known with earlier | now
  · exact List.mem_append_left _ earlier
  · refine List.mem_append_right _ (mem_straysOf leftover.processed ?_ ?_)
    · exact fun listed => unlisted (mem_listed.mp listed)
    · rwa [askedBy, same, List.drop_left]

/-- A request that succeeds leaves a stray too, if what it needs was executed earlier: that is in no
list of the plan, and joins the batch of what needs it. -/
example :
    let plan := ({ name := "build" } : Plan).close [.task "compile"]
    let resolver := Resolver.ofDeclarations [.dependency "test" "compile"]
    (plan.take resolver (.tasks ["test"] none)).result = .ok () ∧
      plan.straysOf resolver (.tasks ["test"] none) = [.task "compile"] :=
  ⟨rfl, rfl⟩

/-! ## Resets -/

theorem isTraced_retainFirst (traced : plan.IsTraced strays) (count : Nat) :
    (plan.retainFirst count).plan.IsTraced strays := by
  unfold Plan.retainFirst
  split
  · exact traced
  · dsimp only
    split
    · exact traced
    · intro item unlisted
      show ((plan.catalog.updateAll (plan.index.beyond count) Node.reset).node item).IsLeftover _
      by_cases removed : item ∈ plan.index.beyond count
      · exact (Catalog.updateAll_brings (·.IsClean) Node.isClean_reset removed).isLeftover _
      · rw [Catalog.node_updateAll_of_not_mem removed]
        refine traced item fun listed => unlisted (listed.imp_left fun indexed => ?_)
        exact ((ItemSet.mem_iff_mem_keepFirst_or_mem_beyond count).mp indexed).resolve_right removed

/-- What a closed plan knows about an item. -/
theorem node_close (plan : Plan) (executed : List WorkItem) (item : WorkItem) :
    (plan.close executed).node item =
      let node := { plan.node item with
        cannotRun := decide (item ∈ executed) || (plan.node item).cannotRun }
      if item ∈ plan.listed then node.reset else node := by
  have barred : (plan.catalog.updateAll executed fun node =>
      { node with cannotRun := true }).node item = { plan.node item with
        cannotRun := decide (item ∈ executed) || (plan.node item).cannotRun } := by
    rw [Catalog.node_updateAll (fun node => { node with cannotRun := true }) fun _ => rfl]
    split
    next ran => rw [decide_eq_true ran]; rfl
    next idle => rw [decide_eq_false idle]; rfl
  show (Catalog.updateAll _ plan.listed Node.reset).node item = _
  rw [Catalog.node_updateAll Node.reset fun _ => rfl, barred]

/-- Closing a plan leaves no traces but in strays. -/
theorem isTraced_close (traced : plan.IsTraced strays) (executed : List WorkItem) :
    (plan.close executed).IsTraced (strays.filter (· ∉ plan.listed)) := by
  intro item _
  rw [node_close]
  dsimp only
  split
  next listed => exact (Node.isClean_reset _).isLeftover _
  next unlisted =>
    have leftover := traced item fun listed => unlisted (mem_listed.mpr listed)
    refine (leftover.mark _ _).mono fun stray => ?_
    exact List.mem_filter.mpr ⟨stray, decide_eq_true unlisted⟩

/-! ## The life of a plan -/

/-- The operations on a plan, from its beginning on, with the items in which they may have left
traces. A request adds the items that it meets and does not list, and closing the plan clears those
that it lists. -/
inductive Lives : Plan → List WorkItem → Prop where
  | new (name : String) : Lives { name } []
  | accept {plan : Plan} {strays : List WorkItem} (accepts : String → Bool) :
      Lives plan strays → Lives { plan with accepts } strays
  | proceed {plan : Plan} {strays : List WorkItem} (continueOnFailure : Bool) :
      Lives plan strays → Lives { plan with continueOnFailure } strays
  | mark {plan : Plan} {strays : List WorkItem} (item : WorkItem) (cannotRun executed : Bool) :
      Lives plan strays →
      Lives (plan.updateNode item fun node => { node with cannotRun, executed }) strays
  | mention {plan : Plan} {strays : List WorkItem} (items : List WorkItem) :
      Lives plan strays → Lives (plan.mention items) strays
  | onComplete {plan : Plan} {strays : List WorkItem} (handler : String) :
      Lives plan strays → Lives (plan.onComplete handler) strays
  | take {plan : Plan} {strays : List WorkItem} (resolver : Resolver) (submission : Submission) :
      Lives plan strays →
      Lives (plan.take resolver submission).plan (strays ++ plan.straysOf resolver submission)
  | seed {plan : Plan} {strays : List WorkItem} (seeds : List Seed) :
      Lives plan strays → Lives (plan.seed seeds).plan strays
  | determine {plan : Plan} {strays : List WorkItem} :
      Lives plan strays → Lives plan.determine.plan strays
  | finalize {plan : Plan} {strays : List WorkItem} :
      Lives plan strays → Lives plan.finalize.plan strays
  | retainFirst {plan : Plan} {strays : List WorkItem} (count : Nat) :
      Lives plan strays → Lives (plan.retainFirst count).plan strays
  | close {plan : Plan} {strays : List WorkItem} (executed : List WorkItem) :
      Lives plan strays → Lives (plan.close executed) (strays.filter (· ∉ plan.listed))

theorem Lives.isTraced (lives : plan.Lives strays) : plan.IsTraced strays := by
  induction lives with
  | new => exact fun item _ => (⟨rfl, rfl, rfl, rfl, rfl⟩ : Node.IsClean _).isLeftover _
  | accept _ _ ih => exact ih
  | proceed _ _ ih => exact ih
  | mark item cannotRun executed _ ih =>
      intro other unlisted
      exact Catalog.update_keeps (·.IsLeftover _) (fun _ leftover => leftover.mark _ _)
        (ih other unlisted)
  | mention items _ ih => exact ih.adds (adds_mention _ items)
  | onComplete _ _ ih => exact ih
  | take resolver submission _ ih => exact isTraced_take ih resolver submission
  | seed seeds _ ih => exact ih.adds (adds_seed _ seeds)
  | determine _ ih => exact ih.adds (adds_determine _)
  | finalize _ ih =>
      have determined := ih.adds (adds_determine _)
      rwa [← (finalize_cases _).2.2] at determined
  | retainFirst count _ ih => exact isTraced_retainFirst ih count
  | close executed _ ih => exact isTraced_close ih executed

/-- After a plan was closed, no item counts as discovered or rejected, and what has been executed is
kept. An item is clean if the plan listed it, or if nothing had asked about it and it belonged to no
batch. So all traces that are left are left in strays. -/
theorem close_clears (lives : plan.Lives strays) (executed : List WorkItem) (item : WorkItem) :
    let before := plan.node item
    let after := (plan.close executed).node item
    after.processed = false ∧ after.filtered = false ∧ after.executed = before.executed ∧
      after.cannotRun = (decide (item ∈ executed) || before.cannotRun) ∧
      (after.IsClean ↔ item ∈ plan.listed ∨ before.required = false ∧ before.group = none) ∧
      (¬ after.IsClean → item ∈ strays ∧ item ∉ plan.listed) := by
  intro before after
  have cleared : after = (plan.close executed).node item := rfl
  rw [node_close] at cleared
  dsimp only at cleared
  by_cases listed : item ∈ plan.listed
  · rw [if_pos listed] at cleared
    rw [cleared]
    have clean := Node.isClean_reset { plan.node item with
      cannotRun := decide (item ∈ executed) || (plan.node item).cannotRun }
    exact ⟨rfl, rfl, rfl, rfl, iff_of_true clean (.inl listed), fun traces => absurd clean traces⟩
  · rw [if_neg listed] at cleared
    rw [cleared]
    have leftover := lives.isTraced item fun known => listed (mem_listed.mpr known)
    have kept := leftover.mark (decide (item ∈ executed) || (plan.node item).cannotRun)
      (plan.node item).executed
    refine ⟨kept.processed, kept.filtered, rfl, rfl, ?_, fun traces => ⟨?_, listed⟩⟩
    · rw [kept.isClean_iff]
      exact (or_iff_right listed).symm
    · by_contra known
      exact traces (kept.isClean_iff.mpr (kept.clean known))

/-! ## An example -/

/-- The tests need compiling, about which the resolver knows nothing, and the documentation. -/
def brokenResolver : Resolver :=
  .ofDeclarations
    [.dependency "test" "compile", .dependency "test" "document", .failing "compile"]

/-- A plan after the request for these tests, which fails. -/
def brokenPlan : Plan :=
  (({ name := "build" } : Plan).take brokenResolver (.tasks ["test"] none)).plan

theorem lives_brokenPlan :
    brokenPlan.Lives [.task "compile", .task "document", .task "compile"] :=
  .take brokenResolver (.tasks ["test"] none) (.new "build")

/-- Closing the plan clears the tests, which were requested. -/
theorem close_clears_brokenPlan :
    brokenPlan.Lives [.task "compile", .task "document", .task "compile"] ∧
      (brokenPlan.node (.task "test")).group = some .first ∧
      ((brokenPlan.close []).node (.task "test")).IsClean := by
  have clears := close_clears lives_brokenPlan [] (.task "test")
  exact ⟨lives_brokenPlan, rfl, clears.2.2.2.2.1.mpr (.inl List.mem_cons_self)⟩

/-- The documentation had joined the batch of the tests when the request failed. It still belongs to
that batch after the plan was closed. -/
theorem not_clear_brokenPlan :
    (∃ strays, brokenPlan.Lives strays) ∧
      ((brokenPlan.close []).node (.task "document")).group = some .first ∧
      ¬ ((brokenPlan.close []).node (.task "document")).IsClean := by
  refine ⟨⟨_, lives_brokenPlan⟩, rfl, fun clean => ?_⟩
  cases clean.group

end Plan

end TaskPlanner
