import Mathlib.Data.Set.Finite.Basic
import TaskPlanner.Proofs.Plan.Submissions
import TaskPlanner.Resolver.Rows

/-! Discovery ends for every source of relations by which a request can come to finitely many items
only. It finishes no item twice, and it cannot tell the source from a resolver. -/

set_option autoImplicit false

namespace TaskPlanner

/-- A source of relations. Its answers may depend on all that the plan knows, also on what was asked
before, and it may know items without end. -/
abbrev Oracle := Plan → WorkItem → Except ResolutionFault Resolution

namespace Walk

variable {resolver other : Resolver} {walk next : Walk} {attempt : Attempt Unit}

/-- The item that the next step finishes, if any: the filter rejects it, or its dependencies have
been walked. -/
def finishes (walk : Walk) : List WorkItem :=
  (walk.queue.head?.map (·.item)).toList.filter fun item =>
    !(walk.plan.node item).processed && !(walk.plan.node item).cannotRun &&
      (!walk.plan.acceptsItem item || decide (item ∈ walk.visiting))

theorem mem_finishes {visit : Visit} {rest : List Visit} (front : walk.queue = visit :: rest)
    {item : WorkItem} : item ∈ walk.finishes ↔ item = visit.item ∧ walk.IsOpen visit ∧
      (walk.plan.acceptsItem visit.item = false ∨ visit.item ∈ walk.visiting) := by
  unfold finishes IsOpen
  rw [front, List.mem_filter]
  constructor
  · intro ⟨same, unfinished⟩
    cases List.mem_singleton.mp same
    simpa [and_assoc] using unfinished
  · intro ⟨same, unfinished⟩
    cases same
    simpa [and_assoc] using unfinished

theorem nodup_finishes (walk : Walk) : walk.finishes.Nodup := by
  unfold finishes
  cases walk.queue.head? with
  | none => exact List.nodup_nil
  | some visit => exact (List.nodup_singleton _).filter _

theorem unfinished_of_mem_finishes {item : WorkItem} (member : item ∈ walk.finishes) :
    (walk.plan.node item).processed = false := by
  have unfinished := (List.mem_filter.mp member).2
  simp only [Bool.and_eq_true, Bool.not_eq_true'] at unfinished
  exact unfinished.1.1

/-- A step finishes the item that it says, and no other. -/
theorem Moves.processed_iff (moves : Moves resolver walk next) (item : WorkItem) :
    (next.plan.node item).processed = true ↔
      (walk.plan.node item).processed = true ∨ item ∈ walk.finishes := by
  cases moves with
  | drop front shut => simp [mem_finishes front, shut]
  | setAside front isOpen rejected => simp [mem_finishes front, isOpen, rejected, or_comm]
  | @leave visit rest front isOpen accepted inside =>
      show ((walk.plan.enroll visit.item).node item).processed = true ↔ _
      simp [mem_finishes front, isOpen, inside, or_comm]
  | @descend visit rest resolution front isOpen accepted outside answered =>
      show (((walk.plan.inquire visit.item).adopt visit.item resolution).node item).processed =
        true ↔ _
      simp [mem_finishes front, accepted, outside]

/-- A step that ends a walk finishes nothing. -/
theorem Stops.processed_eq (stops : Stops resolver walk attempt) (item : WorkItem) :
    (attempt.plan.node item).processed = (walk.plan.node item).processed := by
  cases stops with
  | done => rfl
  | unresolved =>
      exact Plan.inquire_keeps
        (fun node => node.processed = (walk.plan.node item).processed) (fun _ _ => id) rfl
  | cycle => exact Plan.processed_adopt_inquire _ _ _ _

/-! ## Resolvers that cannot be told apart -/

/-- A step asks about the item in front only, and only at its first visit. -/
theorem step_congr (same : ∀ {visit rest}, walk.queue = visit :: rest → walk.IsOpen visit →
      walk.plan.acceptsItem visit.item = true → visit.item ∉ walk.visiting →
      other.answer visit.item = resolver.answer visit.item) :
    walk.step other = walk.step resolver := by
  unfold step
  split
  · rfl
  next visit rest front =>
    dsimp only
    split
    · rfl
    next unshut =>
      split
      · rfl
      next unrejected =>
        split
        · rfl
        next outside =>
          unfold enter
          rw [same front (by simpa [IsOpen] using unshut) (by simpa using unrejected) outside]

/-- A walk asks about untouched items only. -/
theorem Ends.congr (ends : Ends resolver walk attempt)
    (same : ∀ item, walk.isUntouched item = true → other.answer item = resolver.answer item) :
    Ends other walk attempt := by
  have untouched : ∀ {walk : Walk} {visit}, walk.IsOpen visit → visit.item ∉ walk.visiting →
      walk.isUntouched visit.item = true := by
    intro walk visit isOpen outside
    simp [isUntouched, isOpen.1, outside]
  induction ends with
  | stop stopped =>
      refine .stop ((step_congr ?_).trans stopped)
      exact fun _ isOpen _ outside => same _ (untouched isOpen outside)
  | @go walk next attempt goes ends ih =>
      have moves := Moves.of_step goes
      refine .go ((step_congr ?_).trans goes) (ih fun item later => ?_)
      · exact fun _ isOpen _ outside => same _ (untouched isOpen outside)
      · exact same item (moves.isUntouched_le item later)

/-- A step enters one of the known items, so that fewer of them are untouched, or it takes up a part
of the load. -/
theorem Moves.untouched_or_load_lt {known : List WorkItem} (moves : Moves resolver walk next)
    (queue : ∀ visit ∈ walk.queue, visit.item ∈ known) :
    (known.filter next.isUntouched).length < (known.filter walk.isUntouched).length ∨
      (known.filter next.isUntouched).length ≤ (known.filter walk.isUntouched).length ∧
        next.load < walk.load := by
  have narrowed : known.filter next.isUntouched =
      (known.filter walk.isUntouched).filter next.isUntouched := by
    rw [List.filter_filter]
    refine List.filter_congr fun item _ => ?_
    cases untouched : next.isUntouched item with
    | true => rw [moves.isUntouched_le item untouched]; rfl
    | false => rfl
  rw [narrowed]
  rcases moves.load_cases with lighter | ⟨visit, queued, untouched, entered, _⟩
  · exact .inr ⟨List.length_filter_le _ _, lighter⟩
  · left
    apply List.length_filter_lt_length_iff_exists.mpr
    exact ⟨visit.item, List.mem_filter.mpr ⟨queue visit queued, untouched⟩, by simp [entered]⟩

end Walk

/-- The resolver, except for one item. -/
def Resolver.override (resolver : Resolver) (row : ResolverRow) : Resolver where
  answer item := if item = row.item then row.answer else resolver.answer item
  mentionable := row.mentioned ++ resolver.mentionable
  mentioned_subset := by
    intro item resolution answered other mentioned
    split at answered
    · apply List.mem_append_left
      unfold ResolverRow.mentioned
      rw [answered]
      exact mentioned
    · exact List.mem_append_right _ (resolver.mentioned_subset answered other mentioned)

namespace Oracle

variable {oracle : Oracle} {requested known : List WorkItem} {walk next : Walk}
  {finished : List WorkItem} {attempt : Attempt Unit}

/-- What an oracle tells at one step of a walk: the answer about the item in front. -/
def resolver (oracle : Oracle) (walk : Walk) : Resolver :=
  .ofRows (walk.queue.head?.toList.map fun visit =>
    { item := visit.item, answer := oracle walk.plan visit.item })

theorem answer_resolver {visit : Visit} {rest : List Visit} (front : walk.queue = visit :: rest) :
    (oracle.resolver walk).answer visit.item = oracle walk.plan visit.item := by
  unfold resolver Resolver.ofRows ResolverRow.answerFor
  rw [front]
  simp

/-- The items to which a request can come, whatever the plan knows by then. -/
inductive Finds (oracle : Oracle) (requested : List WorkItem) : WorkItem → Prop where
  | requested {item : WorkItem} : item ∈ requested → Finds oracle requested item
  | mentioned {plan : Plan} {item other : WorkItem} {resolution : Resolution} :
      Finds oracle requested item → oracle plan item = .ok resolution →
      other ∈ resolution.mentioned → Finds oracle requested other

/-- A walk under an oracle that finishes items one after the other, and comes to its end. -/
inductive Runs (oracle : Oracle) : Walk → List WorkItem → Attempt Unit → Prop where
  | stop {walk : Walk} {attempt : Attempt Unit} :
      walk.step (oracle.resolver walk) = .stopped attempt → Runs oracle walk [] attempt
  | go {walk next : Walk} {finished : List WorkItem} {attempt : Attempt Unit} :
      walk.step (oracle.resolver walk) = .going next → Runs oracle next finished attempt →
      Runs oracle walk (walk.finishes ++ finished) attempt

/-! ## Termination -/

theorem confined_of_moves (moves : Walk.Moves (oracle.resolver walk) walk next)
    (confined : walk.Confined (oracle.Finds requested)) :
    next.Confined (oracle.Finds requested) := by
  apply moves.confined _ confined
  intro visit rest resolution front answered other mentioned
  rw [answer_resolver front] at answered
  have found := confined.queue visit (front ▸ List.mem_cons_self)
  exact found.mentioned answered mentioned

/-- An oracle that finds only known items comes to an end with every walk. No number of steps is
enough for all answers, but the items that it can be asked about become fewer. -/
theorem exists_runs {walk : Walk} (known : List WorkItem)
    (finds : ∀ item, oracle.Finds requested item → item ∈ known)
    (confined : walk.Confined (oracle.Finds requested)) :
    ∃ finished attempt, oracle.Runs walk finished attempt := by
  cases taken : walk.step (oracle.resolver walk) with
  | stopped attempt => exact ⟨[], attempt, .stop taken⟩
  | going next =>
      have moves := Walk.Moves.of_step taken
      have nearer := moves.untouched_or_load_lt fun visit queued =>
        finds visit.item (confined.queue visit queued)
      obtain ⟨finished, attempt, runs⟩ := exists_runs known finds (confined_of_moves moves confined)
      exact ⟨_, attempt, .go taken runs⟩
termination_by ((known.filter walk.isUntouched).length, walk.load)
decreasing_by
  rcases nearer with fewer | ⟨noMore, lighter⟩
  · exact .left _ _ fewer
  · exact .right' _ noMore lighter

/-! ## What is finished -/

/-- No item is finished twice, and what is finished was not so before. -/
theorem Runs.finishes_once (runs : oracle.Runs walk finished attempt) :
    finished.Nodup ∧ (∀ item ∈ finished, (walk.plan.node item).processed = false) ∧
      ∀ item, (attempt.plan.node item).processed = true ↔
        (walk.plan.node item).processed = true ∨ item ∈ finished := by
  induction runs with
  | @stop walk attempt stopped =>
      refine ⟨List.nodup_nil, nofun, fun item => ?_⟩
      rw [(Walk.Stops.of_step stopped).processed_eq item]
      simp
  | @go walk next finished attempt goes _ ih =>
      have processed := (Walk.Moves.of_step goes).processed_iff
      obtain ⟨distinct, unfinished, ended⟩ := ih
      have later : ∀ item ∈ finished,
          (walk.plan.node item).processed = false ∧ item ∉ walk.finishes := by
        intro item member
        have both := mt (processed item).mpr (by simp [unfinished item member])
        rw [not_or, Bool.not_eq_true] at both
        exact both
      refine ⟨?_, fun item member => ?_, fun item => ?_⟩
      · refine List.nodup_append.mpr ⟨walk.nodup_finishes, distinct, ?_⟩
        rintro item now _ member rfl
        exact (later item member).2 now
      · rcases List.mem_append.mp member with now | member
        · exact Walk.unfinished_of_mem_finishes now
        · exact (later item member).1
      · rw [ended, processed, List.mem_append, or_assoc]

/-! ## Oracles as resolvers -/

/-- An oracle that answers like a resolver leads to the same end. -/
theorem Runs.ends (runs : oracle.Runs walk finished attempt) {resolver : Resolver}
    (same : ∀ known item, oracle known item = resolver.answer item) :
    Walk.Ends resolver walk attempt := by
  have step : ∀ walk : Walk, walk.step resolver = walk.step (oracle.resolver walk) := by
    intro walk
    apply Walk.step_congr
    intro visit rest front _ _ _
    rw [answer_resolver front, same]
  induction runs with
  | stop stopped => exact .stop ((step _).trans stopped)
  | go goes _ ih => exact .go ((step _).trans goes) ih

/-- Whatever an oracle answers in one walk, a resolver may have answered. It is asked about no item
twice, so that it cannot contradict itself. -/
theorem Runs.exists_ends (runs : oracle.Runs walk finished attempt) :
    ∃ resolver, Walk.Ends resolver walk attempt := by
  induction runs with
  | stop stopped => exact ⟨_, .stop stopped⟩
  | @go walk next finished attempt goes _ ih =>
      obtain ⟨resolver, ends⟩ := ih
      cases Walk.Moves.of_step goes with
      | drop front shut =>
          refine ⟨resolver, .go ((Walk.step_congr ?_).trans goes) ends⟩
          intro visit rest queued isOpen _ _
          cases queued.symm.trans front
          exact absurd isOpen shut
      | setAside front isOpen rejected =>
          refine ⟨resolver, .go ((Walk.step_congr ?_).trans goes) ends⟩
          intro visit rest queued _ accepted _
          cases queued.symm.trans front
          rw [rejected] at accepted
          cases accepted
      | leave front isOpen accepted inside =>
          refine ⟨resolver, .go ((Walk.step_congr ?_).trans goes) ends⟩
          intro visit rest queued _ _ outside
          cases queued.symm.trans front
          exact absurd inside outside
      | @descend visit rest resolution front isOpen accepted outside answered =>
          let row : ResolverRow := { item := visit.item, answer := .ok resolution }
          refine ⟨resolver.override row, .go ((Walk.step_congr ?_).trans goes) (ends.congr ?_)⟩
          · intro other rest queued _ _ _
            cases queued.symm.trans front
            rw [answered]
            exact if_pos rfl
          · intro item untouched
            refine if_neg fun same => ?_
            cases same
            simp [Walk.isUntouched, Walk.descend, row] at untouched

/-- Whatever an oracle answers, the request ends as it does under a resolver. -/
theorem Runs.exists_take {plan : Plan} {submission : Submission}
    (runs : oracle.Runs { plan := plan.prepare submission, queue := submission.visits } finished
      attempt) (unfinalized : plan.isFinalized = false) :
    ∃ resolver, plan.take resolver submission = attempt := by
  obtain ⟨resolver, ends⟩ := runs.exists_ends
  refine ⟨resolver, ?_⟩
  rw [Plan.take_eq unfinalized]
  exact ends.unique (Plan.ends_expand _ _ _)

/-- Discovery comes to an end if the request can come to finitely many items only, whatever their
relations are, and it finishes none of them twice. -/
theorem discovery_ends (oracle : Oracle) (plan : Plan) (submission : Submission)
    (finite : {item | oracle.Finds submission.requested item}.Finite) :
    ∃ finished attempt,
      oracle.Runs { plan := plan.prepare submission, queue := submission.visits } finished
        attempt ∧
      finished.Nodup ∧ (∀ item ∈ finished, (plan.node item).processed = false) ∧
      (∀ item, (attempt.plan.node item).processed = true ↔
        (plan.node item).processed = true ∨ item ∈ finished) ∧
      ∀ resolver : Resolver, (∀ known item, oracle known item = resolver.answer item) →
        plan.isFinalized = false → plan.take resolver submission = attempt := by
  have confined : Walk.Confined (oracle.Finds submission.requested)
      { plan := plan.prepare submission, queue := submission.visits } :=
    ⟨fun visit queued => .requested (Submission.mem_visits.mp queued).1, nofun⟩
  obtain ⟨finished, attempt, runs⟩ := exists_runs finite.toFinset.toList
    (fun item found => by simpa using found) confined
  obtain ⟨distinct, unfinished, processed⟩ := runs.finishes_once
  simp only [(Plan.sameFindings_prepare plan submission).processed] at unfinished processed
  refine ⟨finished, attempt, runs, distinct, unfinished, processed, ?_⟩
  intro resolver same unfinalized
  rw [Plan.take_eq unfinalized]
  exact (runs.ends same).unique (Plan.ends_expand _ _ _)

/-- Every task has a copy in another build, on which it depends twice, and which is finalized by the
task and by itself. There is no end of tasks, but a task leads to its own copy only. -/
def mirroringOracle : Oracle := fun _ item =>
  match item with
  | .task name =>
      .ok
        { successors := [{ item := .delegated "mirror" name }, { item := .delegated "mirror" name }]
          finalizers := [.task name] }
  | .delegated build name =>
      .ok { finalizers := [.task name, .delegated build name] }
  | .marker _ => .ok {}

theorem finite_mirroringOracle : {item | mirroringOracle.Finds [.task "sync"] item}.Finite := by
  apply Set.Finite.subset (Set.toFinite {.task "sync", .delegated "mirror" "sync"})
  intro item found
  induction found with
  | requested member => exact .inl (List.mem_singleton.mp member)
  | mentioned _ answered mentioned ih =>
      rcases ih with rfl | rfl
      · cases answered
        simpa [Resolution.mentioned, or_comm] using mentioned
      · cases answered
        simpa [Resolution.mentioned] using mentioned

theorem discovery_ends_sync :
    {item | mirroringOracle.Finds [.task "sync"] item}.Finite ∧
      ∃ finished attempt,
        mirroringOracle.Runs
          { plan := ({} : Plan).prepare (.tasks ["sync"] none)
            queue := (Submission.tasks ["sync"] none).visits } finished attempt ∧
        finished.Nodup := by
  obtain ⟨finished, attempt, runs, distinct, _⟩ :=
    discovery_ends mirroringOracle {} (.tasks ["sync"] none) finite_mirroringOracle
  exact ⟨finite_mirroringOracle, finished, attempt, runs, distinct⟩

end Oracle

end TaskPlanner
