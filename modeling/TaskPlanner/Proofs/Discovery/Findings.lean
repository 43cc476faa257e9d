import TaskPlanner.Proofs.Plan.CycleRejection

/-! What walks find in a plan where some items are finished already. A walk passes a finished item
by without looking behind it, so that it finds an item only along items that are open. -/

set_option autoImplicit false

namespace TaskPlanner

theorem Resolver.Leads.mem_mentionable {resolver : Resolver} {source target : WorkItem}
    (leads : resolver.Leads source target) : target ∈ resolver.mentionable := by
  obtain ⟨resolution, answered, dependency | finalizer⟩ := leads
  · exact resolver.mentioned_subset answered target
      (resolution.dependencies_subset_mentioned dependency)
  · exact resolver.mentioned_subset answered target (List.mem_append_right _ finalizer)

namespace Plan

/-- A walk in the plan may enter the item: it is not finished, the filter accepts it, and it may
run. -/
def LetsIn (plan : Plan) (item : WorkItem) : Prop :=
  (plan.node item).processed = false ∧ plan.Admits item

/-- The entries that a walk may enter, and with each of these items those to which it leads and
which a walk may enter as well. -/
inductive Finds (plan : Plan) (resolver : Resolver) (entries : List WorkItem) :
    WorkItem → Prop where
  | entry {item : WorkItem} : item ∈ entries → plan.LetsIn item → Finds plan resolver entries item
  | successor {source target : WorkItem} : Finds plan resolver entries source →
      resolver.Leads source target → plan.LetsIn target → Finds plan resolver entries target

/-- The item was requested, or an item that is found leads to it. -/
def Seeks (plan : Plan) (resolver : Resolver) (entries : List WorkItem) (item : WorkItem) : Prop :=
  item ∈ entries ∨ ∃ source, plan.Finds resolver entries source ∧ resolver.Leads source item

variable {base : Plan} {resolver : Resolver} {entries larger : List WorkItem} {item : WorkItem}

theorem Finds.letsIn (finds : base.Finds resolver entries item) : base.LetsIn item := by
  cases finds with
  | entry _ letsIn => exact letsIn
  | successor _ _ letsIn => exact letsIn

theorem Seeks.finds (seeks : base.Seeks resolver entries item) (letsIn : base.LetsIn item) :
    base.Finds resolver entries item := by
  rcases seeks with requested | ⟨source, finds, leads⟩
  · exact .entry requested letsIn
  · exact .successor finds leads letsIn

theorem Finds.mono (subset : entries ⊆ larger) (finds : base.Finds resolver entries item) :
    base.Finds resolver larger item := by
  induction finds with
  | entry requested letsIn => exact .entry (subset requested) letsIn
  | successor _ leads letsIn ih => exact .successor ih leads letsIn

/-- What is found is needed in every plan that admits it. -/
theorem Finds.needs {other : Plan} (admits : ∀ item, base.LetsIn item → other.Admits item)
    (finds : base.Finds resolver entries item) : other.Needs resolver entries item := by
  induction finds with
  | entry requested letsIn => exact .entry requested (admits _ letsIn)
  | successor _ leads letsIn ih => exact .successor ih leads (admits _ letsIn)

/-- If nothing is finished, what is needed is found. -/
theorem Needs.finds (unfinished : ∀ item, (base.node item).processed = false)
    (needs : base.Needs resolver entries item) : base.Finds resolver entries item := by
  induction needs with
  | entry requested admits => exact .entry requested ⟨unfinished _, admits⟩
  | successor _ leads admits ih => exact .successor ih leads ⟨unfinished _, admits⟩

theorem Seeks.unmarked (avoids : resolver.AvoidsMarkers)
    (requested : ∀ item ∈ entries, item.isMarker = false)
    (seeks : base.Seeks resolver entries item) : item.isMarker = false := by
  rcases seeks with member | ⟨source, _, leads⟩
  · exact requested item member
  · exact avoids.unmarked_of_leads leads

theorem Finds.seeks (finds : base.Finds resolver entries item) :
    base.Seeks resolver entries item := by
  cases finds with
  | entry member _ => exact .inl member
  | @successor source _ finds leads _ => exact .inr ⟨source, finds, leads⟩

/-- There is a cycle of dependencies among what is found. -/
def FindsCycle (plan : Plan) (resolver : Resolver) (entries : List WorkItem) : Prop :=
  ∃ items, resolver.IsCycle items ∧ ∀ item ∈ items, plan.Finds resolver entries item

theorem FindsCycle.mono (subset : entries ⊆ larger) (cyclic : base.FindsCycle resolver entries) :
    base.FindsCycle resolver larger := by
  obtain ⟨items, cycle, found⟩ := cyclic
  exact ⟨items, cycle, fun item member => (found item member).mono subset⟩

/-- The filter is the same, what could run still can, and nothing that was found is lost. -/
structure Continues (before after : Plan) : Prop where
  accepts : after.accepts = before.accepts
  cannotRun : ∀ item, (after.node item).cannotRun = (before.node item).cannotRun
  kept : ∀ item, (before.node item).processed = true → (after.node item).processed = true
  listed : ∀ item ∈ before.index, item ∈ after.index

theorem Continues.refl (plan : Plan) : plan.Continues plan :=
  ⟨rfl, fun _ => rfl, fun _ => id, fun _ => id⟩

theorem Continues.trans {before middle after : Plan} (first : before.Continues middle)
    (second : middle.Continues after) : before.Continues after where
  accepts := second.accepts.trans first.accepts
  cannotRun item := (second.cannotRun item).trans (first.cannotRun item)
  kept item finished := second.kept item (first.kept item finished)
  listed item member := second.listed item (first.listed item member)

theorem Continues.acceptsItem_eq {after : Plan} (continues : base.Continues after)
    (item : WorkItem) : after.acceptsItem item = base.acceptsItem item := by
  unfold acceptsItem
  rw [continues.accepts]

end Plan

namespace Walk

variable {base : Plan} {resolver : Resolver} {entries : List WorkItem} {walk next : Walk}
  {item : WorkItem}

/-- The plan has what the resolver tells about the item, and the walk is done with the dependencies
of the item or will come to them. Once the item is finished, the same holds of its finalizers. -/
def HasExplored (resolver : Resolver) (walk : Walk) (item : WorkItem) : Prop :=
  ∃ resolution, resolver.answer item = .ok resolution ∧
    walk.plan.relations item = resolution.relations ∧
    (∀ dependency ∈ resolution.relations.dependencies, walk.Covers dependency) ∧
    ((walk.plan.node item).processed = true →
      ∀ finalizer ∈ resolution.finalizers, walk.Covers finalizer)

/-- The walk is one of a series of walks for `entries` that began with the plan `base`. Markers,
which do not come from walks, may have been added in between. -/
structure Resumes (base : Plan) (resolver : Resolver) (entries : List WorkItem) (walk : Walk) :
    Prop where
  returns : walk.Returns
  requested : ∀ item ∈ entries, item.isMarker = false
  continues : base.Continues walk.plan
  finished : ∀ item, item.isMarker = false → (walk.plan.node item).processed = true →
    (base.node item).processed = true ∨ base.acceptsItem item = false ∨ item ∈ walk.plan.index
  found : ∀ item ∈ walk.plan.index, item.isMarker = false →
    item ∈ base.index ∨ base.Finds resolver entries item
  entered : ∀ item ∈ walk.visiting, base.Finds resolver entries item
  wanted : ∀ item ∈ walk.queued, base.Seeks resolver entries item
  covered : ∀ item ∈ entries, walk.Covers item
  explored : ∀ item, item.isMarker = false → base.LetsIn item →
    (walk.plan.node item).processed = true ∨ item ∈ walk.visiting → walk.HasExplored resolver item

theorem Resumes.unmarked (resumes : Resumes base resolver entries walk)
    (avoids : resolver.AvoidsMarkers) (finds : base.Finds resolver entries item) :
    item.isMarker = false :=
  finds.seeks.unmarked avoids resumes.requested

/-- What a walk enters is found. -/
theorem Resumes.finds (resumes : Resumes base resolver entries walk) {visit : Visit}
    {rest : List Visit} (front : walk.queue = visit :: rest) (isOpen : walk.IsOpen visit)
    (accepted : walk.plan.acceptsItem visit.item = true) :
    base.Finds resolver entries visit.item := by
  have seeks := resumes.wanted visit.item (queued_eq front ▸ List.mem_cons_self)
  refine seeks.finds ⟨?_, (resumes.continues.acceptsItem_eq _).symm.trans accepted,
    (resumes.continues.cannotRun _).symm.trans isOpen.2⟩
  cases before : (base.node visit.item).processed with
  | false => rfl
  | true => exact (resumes.continues.kept _ before).symm.trans isOpen.1

/-- An item that is being walked has been explored. -/
theorem Resumes.hasExplored (resumes : Resumes base resolver entries walk)
    (avoids : resolver.AvoidsMarkers) (inside : item ∈ walk.visiting) :
    walk.HasExplored resolver item := by
  have finds := resumes.entered item inside
  exact resumes.explored item (resumes.unmarked avoids finds) finds.letsIn (.inr inside)

/-! ## Steps -/

theorem Moves.continues (moves : Moves resolver walk next) : walk.plan.Continues next.plan where
  accepts := by rw [moves.keepsRequests]
  cannotRun item := (moves.growsInto.catalog item).cannotRun
  kept item finished := ((moves.growsInto.catalog item).keeps finished).2.2.2
  listed _ member := moves.growsInto.index.subset member

/-- A step that leaves an item alone keeps what is known of it. -/
theorem Moves.hasExplored (moves : Moves resolver walk next)
    (relations : next.plan.relations item = walk.plan.relations item)
    (processed : (next.plan.node item).processed = (walk.plan.node item).processed)
    (explored : walk.HasExplored resolver item) : next.HasExplored resolver item := by
  obtain ⟨resolution, answered, related, dependencies, finalizers⟩ := explored
  refine ⟨resolution, answered, relations.trans related,
    fun dependency member => moves.covers (dependencies dependency member),
    fun finished finalizer member => moves.covers ?_⟩
  exact finalizers (processed.symm.trans finished) finalizer member

theorem Resumes.setAside (resumes : Resumes base resolver entries walk) {visit : Visit}
    {rest : List Visit} (front : walk.queue = visit :: rest) (isOpen : walk.IsOpen visit)
    (rejected : walk.plan.acceptsItem visit.item = false) :
    Resumes base resolver entries
      { walk with plan := walk.plan.setAside visit.item, queue := rest } := by
  have moves : Moves resolver walk _ := .setAside front isOpen rejected
  rw [resumes.continues.acceptsItem_eq] at rejected
  refine ⟨moves.returns resumes.returns, resumes.requested,
    resumes.continues.trans moves.continues, fun item unmarked finished => ?_, resumes.found,
    resumes.entered, fun item member => ?_,
    fun item requested => moves.covers (resumes.covered item requested),
    fun item unmarked letsIn known => ?_⟩
  · rw [Plan.processed_setAside, Bool.or_eq_true, decide_eq_true_eq] at finished
    rcases finished with rfl | earlier
    · exact .inr (.inl rejected)
    · exact resumes.finished item unmarked earlier
  · exact resumes.wanted item (queued_eq front ▸ List.mem_cons_of_mem _ member)
  · -- What the filter rejects is not let in.
    have different : item ≠ visit.item := by
      rintro rfl
      rw [letsIn.2.1] at rejected
      cases rejected
    have same : ((walk.plan.setAside visit.item).node item).processed =
        (walk.plan.node item).processed := by
      rw [Plan.processed_setAside, decide_eq_false different, Bool.false_or]
    exact moves.hasExplored (Plan.relations_setAside _ _ _) same
      (resumes.explored item unmarked letsIn (known.imp_left same.symm.trans))

theorem Resumes.leave (resumes : Resumes base resolver entries walk)
    (avoids : resolver.AvoidsMarkers) {visit : Visit} {rest : List Visit}
    (front : walk.queue = visit :: rest) (isOpen : walk.IsOpen visit)
    (accepted : walk.plan.acceptsItem visit.item = true) (inside : visit.item ∈ walk.visiting) :
    Resumes base resolver entries (walk.leave visit rest) := by
  have moves : Moves resolver walk _ := .leave front isOpen accepted inside
  have processed : ∀ item, ((walk.leave visit rest).plan.node item).processed =
      (decide (item = visit.item) || (walk.plan.node item).processed) :=
    fun item => Plan.processed_enroll _ _ _
  have relations : ∀ item,
      (walk.leave visit rest).plan.relations item = walk.plan.relations item :=
    fun item => Plan.relations_enroll _ _ _
  obtain ⟨resolution, answered, related, dependencies, -⟩ := resumes.hasExplored avoids inside
  refine ⟨moves.returns resumes.returns, resumes.requested,
    resumes.continues.trans moves.continues, fun item unmarked finished => ?_,
    fun item member unmarked => ?_,
    fun item member => resumes.entered item (List.mem_of_mem_erase member), fun item member => ?_,
    fun item requested => moves.covers (resumes.covered item requested),
    fun item unmarked letsIn known => ?_⟩
  · rw [processed, Bool.or_eq_true, decide_eq_true_eq] at finished
    rcases finished with rfl | earlier
    · exact .inr (.inr (ItemSet.mem_insert.mpr (.inr rfl)))
    · exact (resumes.finished item unmarked earlier).imp_right
        (.imp_right fun old => ItemSet.mem_insert.mpr (.inl old))
  · rcases ItemSet.mem_insert.mp member with old | rfl
    · exact resumes.found item old unmarked
    · exact .inr (resumes.entered _ inside)
  · rcases mem_queued_leave.mp member with ⟨finalizer, _⟩ | behind
    · rw [related] at finalizer
      exact .inr ⟨visit.item, resumes.entered _ inside, resolution, answered, .inr finalizer⟩
    · exact resumes.wanted item (queued_eq front ▸ List.mem_cons_of_mem _ behind)
  · by_cases left : item = visit.item
    · subst left
      refine ⟨resolution, answered, (relations _).trans related,
        fun dependency member => moves.covers (dependencies dependency member),
        fun _ finalizer member => .inr (.inr (mem_queued_leave.mpr ?_))⟩
      by_cases entered : finalizer ∈ walk.visiting.erase visit.item
      · obtain ⟨different, before⟩ := resumes.returns.entered.mem_erase_iff.mp entered
        exact .inr (resumes.returns.waiting_tail front before different)
      · exact .inl ⟨related ▸ member, entered⟩
    · have same : ((walk.leave visit rest).plan.node item).processed =
          (walk.plan.node item).processed := by
        rw [processed, decide_eq_false left, Bool.false_or]
      exact moves.hasExplored (relations item) same (resumes.explored item unmarked letsIn
        (known.imp same.symm.trans List.mem_of_mem_erase))

theorem Resumes.descend (resumes : Resumes base resolver entries walk) {visit : Visit}
    {rest : List Visit} {resolution : Resolution} (front : walk.queue = visit :: rest)
    (isOpen : walk.IsOpen visit) (accepted : walk.plan.acceptsItem visit.item = true)
    (outside : visit.item ∉ walk.visiting) (answered : resolver.answer visit.item = .ok resolution) :
    Resumes base resolver entries (walk.descend visit resolution) := by
  have moves : Moves resolver walk _ := .descend front isOpen accepted outside answered
  have finds := resumes.finds front isOpen accepted
  have returns := moves.returns resumes.returns
  have processed : ∀ item, ((walk.descend visit resolution).plan.node item).processed =
      (walk.plan.node item).processed := fun item => Plan.processed_adopt_inquire _ _ _ item
  have relations : ∀ item, (walk.descend visit resolution).plan.relations item =
      if item = visit.item then resolution.relations else walk.plan.relations item :=
    fun item => Plan.relations_adopt_inquire _ _ _ item
  refine ⟨returns, resumes.requested, resumes.continues.trans moves.continues,
    fun item unmarked finished => ?_, resumes.found, fun item member => ?_,
    fun item member => ?_, fun item requested => moves.covers (resumes.covered item requested),
    fun item unmarked letsIn known => ?_⟩
  · rw [processed] at finished
    exact resumes.finished item unmarked finished
  · rcases List.mem_cons.mp member with rfl | earlier
    · exact finds
    · exact resumes.entered item earlier
  · rcases mem_queued_descend.mp member with ⟨dependency, _⟩ | before
    · exact .inr ⟨visit.item, finds, resolution, answered, .inl dependency⟩
    · exact resumes.wanted item before
  · by_cases here : item = visit.item
    · subst here
      refine ⟨resolution, answered, (relations _).trans (if_pos rfl),
        fun dependency member => .inr (.inr (returns.mem_queued member)), fun finished => ?_⟩
      rw [processed, isOpen.1] at finished
      cases finished
    · exact moves.hasExplored ((relations item).trans (if_neg here)) (processed item)
        (resumes.explored item unmarked letsIn (known.imp (processed item).symm.trans
          fun inside => (List.mem_cons.mp inside).resolve_left here))

theorem Moves.resumes (moves : Moves resolver walk next) (avoids : resolver.AvoidsMarkers)
    (resumes : Resumes base resolver entries walk) : Resumes base resolver entries next := by
  cases moves with
  | @drop visit rest front shut =>
      have drops : Moves resolver walk _ := .drop front shut
      exact { resumes with
        returns := drops.returns resumes.returns
        wanted := fun item member =>
          resumes.wanted item (queued_eq front ▸ List.mem_cons_of_mem _ member)
        covered := fun item requested => drops.covers (resumes.covered item requested)
        explored := fun item unmarked letsIn known =>
          drops.hasExplored rfl rfl (resumes.explored item unmarked letsIn known) }
  | setAside front isOpen rejected => exact resumes.setAside front isOpen rejected
  | leave front isOpen accepted inside => exact resumes.leave avoids front isOpen accepted inside
  | descend front isOpen accepted outside answered =>
      exact resumes.descend front isOpen accepted outside answered

theorem Reaches.resumes {last : Walk} (reaches : Reaches resolver walk last)
    (avoids : resolver.AvoidsMarkers) (resumes : Resumes base resolver entries walk) :
    Resumes base resolver entries last := by
  induction reaches with
  | refl => exact resumes
  | tail _ moves ih => exact moves.resumes avoids ih

/-! ## The end of a walk -/

/-- At its end, the walk is done with everything that is found. -/
theorem Resumes.processed_of_finds (resumes : Resumes base resolver entries walk)
    (avoids : resolver.AvoidsMarkers) (ended : walk.queue = [])
    (finds : base.Finds resolver entries item) : (walk.plan.node item).processed = true := by
  have done : ∀ other, base.LetsIn other → walk.Covers other →
      (walk.plan.node other).processed = true := by
    rintro other letsIn (processed | barred | queued)
    · exact processed
    · rw [resumes.continues.cannotRun, letsIn.2.2] at barred
      cases barred
    · rw [Walk.queued, ended] at queued
      cases queued
  induction finds with
  | entry requested letsIn => exact done _ letsIn (resumes.covered _ requested)
  | @successor source target finds leads letsIn ih =>
      have unmarked := resumes.unmarked avoids finds
      obtain ⟨resolution, answered, _, dependencies, finalizers⟩ :=
        resumes.explored source unmarked finds.letsIn (.inl ih)
      obtain ⟨told, agreed, member⟩ := leads
      cases answered.symm.trans agreed
      refine done target letsIn ?_
      rcases member with dependency | finalizer
      · exact dependencies target dependency
      · exact finalizers ih target finalizer

/-- At its end, the walk has added what is found to the index, and nothing else. -/
theorem Resumes.mem_index_iff (resumes : Resumes base resolver entries walk)
    (avoids : resolver.AvoidsMarkers) (ended : walk.queue = []) (unmarked : item.isMarker = false) :
    item ∈ walk.plan.index ↔ item ∈ base.index ∨ base.Finds resolver entries item := by
  refine ⟨fun member => resumes.found item member unmarked, ?_⟩
  rintro (before | finds)
  · exact resumes.continues.listed item before
  · obtain ⟨unfinished, accepted, _⟩ := finds.letsIn
    rcases resumes.finished item unmarked (resumes.processed_of_finds avoids ended finds) with
      earlier | rejected | indexed
    · cases earlier.symm.trans unfinished
    · cases rejected.symm.trans accepted
    · exact indexed

/-- At its end, the walk has asked about everything that is found. -/
theorem Resumes.exists_answer (resumes : Resumes base resolver entries walk)
    (avoids : resolver.AvoidsMarkers) (ended : walk.queue = [])
    (finds : base.Finds resolver entries item) :
    ∃ resolution, resolver.answer item = .ok resolution := by
  obtain ⟨resolution, answered, _⟩ := resumes.explored item (resumes.unmarked avoids finds)
    finds.letsIn (.inl (resumes.processed_of_finds avoids ended finds))
  exact ⟨resolution, answered⟩

/-- Behind its last step, nothing is left of a walk but what it has found. -/
theorem Resumes.rest (resumes : Resumes base resolver entries walk) (ended : walk.queue = []) :
    Resumes base resolver entries { plan := walk.plan, queue := [] } := by
  have covers : ∀ item, walk.Covers item → Covers { plan := walk.plan, queue := [] } item := by
    rintro item (processed | barred | queued)
    · exact .inl processed
    · exact .inr (.inl barred)
    · rw [Walk.queued, ended] at queued
      cases queued
  have nothing : ∀ item : WorkItem, item ∉ ([] : List WorkItem) := fun _ => List.not_mem_nil
  refine ⟨⟨fun item inside => absurd inside (nothing item), List.nil_subset _, List.nodup_nil⟩,
    resumes.requested, resumes.continues, resumes.finished, resumes.found,
    fun item inside => absurd inside (nothing item), fun item queued => absurd queued (nothing item),
    fun item requested => covers item (resumes.covered item requested),
    fun item unmarked letsIn known => ?_⟩
  obtain ⟨resolution, answered, related, dependencies, finalizers⟩ :=
    resumes.explored item unmarked letsIn (.inl (known.resolve_right List.not_mem_nil))
  exact ⟨resolution, answered, related,
    fun dependency member => covers dependency (dependencies dependency member),
    fun finished finalizer member => covers finalizer (finalizers finished finalizer member)⟩

/-- A walk that stops half-way does so because of something that it has found: an item about which
the resolver knows nothing, or a cycle. -/
theorem Stops.cases_of_resumes {attempt : Attempt Unit} (stops : Stops resolver walk attempt)
    (avoids : resolver.AvoidsMarkers) (resumes : Resumes base resolver entries walk)
    (disciplined : Disciplined resolver walk) :
    attempt.result = .ok () ∨
    (∃ report, attempt.result = .error (.cycle report)) ∧ base.FindsCycle resolver entries ∨
    ∃ item fault, base.Finds resolver entries item ∧ resolver.answer item = .error fault := by
  cases stops with
  | done => exact .inl rfl
  | unresolved front isOpen accepted outside failed =>
      exact .inr (.inr ⟨_, _, resumes.finds front isOpen accepted, failed⟩)
  | cycle front isOpen accepted outside answered closed =>
      have descends := Moves.descend front isOpen accepted outside answered
      have entered := (descends.resumes avoids resumes).entered
      obtain ⟨returns, visiting, stacked⟩ := descends.disciplined disciplined
      obtain ⟨cycle, onPath⟩ := stacked.isCycle (visiting ▸ returns.entered)
        (fun item member => ⟨_, answered, (List.mem_filter.mp member).1⟩) closed
      refine .inr (.inl ⟨⟨_, rfl⟩, _, cycle, fun item member => entered item ?_⟩)
      rw [visiting]
      exact onPath member

end Walk

end TaskPlanner
