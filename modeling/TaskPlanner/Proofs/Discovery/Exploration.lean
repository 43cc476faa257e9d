import Mathlib.Data.List.Perm.Basic
import TaskPlanner.Plan.Submission
import TaskPlanner.Proofs.Discovery.Growth

/-! A walk enters what is needed and nothing else, asks about each item once, and forgets
nothing: what an item leads to is finished, cannot run, or is still to be visited. -/

set_option autoImplicit false

namespace TaskPlanner

/-- The resolver tells that `target` is a dependency or a finalizer of `source`. -/
def Resolver.Leads (resolver : Resolver) (source target : WorkItem) : Prop :=
  ∃ resolution, resolver.answer source = .ok resolution ∧
    (target ∈ resolution.relations.dependencies ∨ target ∈ resolution.finalizers)

namespace Plan

/-- The filter accepts the item, and the item may run. -/
def Admits (plan : Plan) (item : WorkItem) : Prop :=
  plan.acceptsItem item = true ∧ (plan.node item).cannotRun = false

/-- The admitted entries, and with each of these items the admitted items to which it leads. -/
inductive Needs (plan : Plan) (resolver : Resolver) (entries : List WorkItem) :
    WorkItem → Prop where
  | entry {item : WorkItem} : item ∈ entries → plan.Admits item → Needs plan resolver entries item
  | successor {source target : WorkItem} : Needs plan resolver entries source →
      resolver.Leads source target → plan.Admits target → Needs plan resolver entries target

/-- The item was requested, or a needed item leads to it. -/
def Wants (plan : Plan) (resolver : Resolver) (entries : List WorkItem) (item : WorkItem) : Prop :=
  item ∈ entries ∨ ∃ source, plan.Needs resolver entries source ∧ resolver.Leads source item

variable {base : Plan} {resolver : Resolver} {entries larger : List WorkItem} {item : WorkItem}

theorem Needs.admits (needs : base.Needs resolver entries item) : base.Admits item := by
  cases needs with
  | entry _ admits => exact admits
  | successor _ _ admits => exact admits

theorem Wants.needs (wants : base.Wants resolver entries item) (admits : base.Admits item) :
    base.Needs resolver entries item := by
  rcases wants with requested | ⟨source, needs, leads⟩
  · exact .entry requested admits
  · exact .successor needs leads admits

theorem Needs.mono (subset : entries ⊆ larger) (needs : base.Needs resolver entries item) :
    base.Needs resolver larger item := by
  induction needs with
  | entry requested admits => exact .entry (subset requested) admits
  | successor _ leads admits ih => exact .successor ih leads admits

theorem Wants.mono (subset : entries ⊆ larger) (wants : base.Wants resolver entries item) :
    base.Wants resolver larger item :=
  wants.imp (subset ·) fun ⟨source, needs, leads⟩ => ⟨source, needs.mono subset, leads⟩

end Plan

namespace Walk

variable {base : Plan} {resolver : Resolver} {entries : List WorkItem} {walk next : Walk}

/-- The items to which a visit is still to come. -/
def queued (walk : Walk) : List WorkItem := walk.queue.map (·.item)

theorem queued_eq {visit : Visit} {rest : List Visit} (front : walk.queue = visit :: rest) :
    walk.queued = visit.item :: rest.map (·.item) := by
  rw [queued, front, List.map_cons]

theorem mem_queued_leave {visit : Visit} {rest : List Visit} {item : WorkItem} :
    item ∈ (walk.leave visit rest).queued ↔
      item ∈ (walk.plan.relations visit.item).finalizers ∧
        item ∉ walk.visiting.erase visit.item ∨ item ∈ rest.map (·.item) := by
  simp [queued, Walk.leave, Function.comp_def]

theorem mem_queued_descend {visit : Visit} {resolution : Resolution} {item : WorkItem} :
    item ∈ (walk.descend visit resolution).queued ↔
      item ∈ resolution.relations.dependencies ∧ item ∉ visit.item :: walk.visiting ∨
        item ∈ walk.queued := by
  simp [queued, Walk.descend, Function.comp_def]

/-! ## The path of a walk -/

/-- The walk comes back to the items on its path. -/
structure Returns (walk : Walk) : Prop where
  unfinished : ∀ item ∈ walk.visiting,
    (walk.plan.node item).processed = false ∧ walk.plan.Admits item
  waiting : walk.visiting ⊆ walk.queued
  entered : walk.visiting.Nodup

theorem Returns.not_mem_of_not_isOpen (returns : walk.Returns) {visit : Visit}
    (shut : ¬ walk.IsOpen visit) : visit.item ∉ walk.visiting := by
  intro inside
  obtain ⟨unfinished, admits⟩ := returns.unfinished visit.item inside
  exact shut ⟨unfinished, admits.2⟩

theorem Returns.not_mem_of_rejected (returns : walk.Returns) {visit : Visit}
    (rejected : walk.plan.acceptsItem visit.item = false) : visit.item ∉ walk.visiting := by
  intro inside
  obtain ⟨_, accepted, _⟩ := returns.unfinished visit.item inside
  rw [accepted] at rejected
  cases rejected

/-- An item that is being walked keeps its place behind a visit to another one. -/
theorem Returns.waiting_tail (returns : walk.Returns) {visit : Visit} {rest : List Visit}
    (front : walk.queue = visit :: rest) {item : WorkItem} (inside : item ∈ walk.visiting)
    (different : item ≠ visit.item) : item ∈ rest.map (·.item) := by
  have queued := returns.waiting inside
  rw [queued_eq front] at queued
  exact (List.mem_cons.mp queued).resolve_left different

theorem Moves.returns (moves : Moves resolver walk next) (returns : walk.Returns) :
    next.Returns := by
  cases moves with
  | @drop visit rest front shut =>
      have outside := returns.not_mem_of_not_isOpen shut
      refine ⟨returns.unfinished, fun item inside => ?_, returns.entered⟩
      exact returns.waiting_tail front inside fun same => outside (same ▸ inside)
  | @setAside visit rest front _ rejected =>
      have outside := returns.not_mem_of_rejected rejected
      have apart : ∀ item ∈ walk.visiting, item ≠ visit.item := by
        rintro item inside rfl
        exact outside inside
      refine ⟨fun item inside => ?_, fun item inside => ?_, returns.entered⟩
      · obtain ⟨unfinished, accepted, runnable⟩ := returns.unfinished item inside
        rw [Plan.processed_setAside, decide_eq_false (apart item inside), Bool.false_or]
        exact ⟨unfinished, accepted, (Plan.cannotRun_setAside _ _ _).trans runnable⟩
      · exact returns.waiting_tail front inside (apart item inside)
  | @leave visit rest front _ _ inside =>
      refine ⟨fun item present => ?_, fun item present => ?_, returns.entered.erase _⟩
      · obtain ⟨different, present⟩ := returns.entered.mem_erase_iff.mp present
        obtain ⟨unfinished, accepted, runnable⟩ := returns.unfinished item present
        show ((walk.plan.enroll visit.item).node item).processed = false ∧ _ ∧
          ((walk.plan.enroll visit.item).node item).cannotRun = false
        rw [Plan.processed_enroll, decide_eq_false different, Bool.false_or]
        exact ⟨unfinished, accepted, (Plan.cannotRun_enroll _ _ _).trans runnable⟩
      · obtain ⟨different, present⟩ := returns.entered.mem_erase_iff.mp present
        exact mem_queued_leave.mpr (.inr (returns.waiting_tail front present different))
  | @descend visit rest resolution front isOpen accepted outside answered =>
      refine ⟨fun item present => ?_, fun item present => ?_,
        List.nodup_cons.mpr ⟨outside, returns.entered⟩⟩
      · have known : (walk.plan.node item).processed = false ∧ walk.plan.Admits item := by
          rcases List.mem_cons.mp present with rfl | earlier
          · exact ⟨isOpen.1, accepted, isOpen.2⟩
          · exact returns.unfinished item earlier
        exact ⟨(Plan.processed_adopt_inquire _ _ _ _).trans known.1, known.2.1,
          (Plan.cannotRun_adopt_inquire _ _ _ _).trans known.2.2⟩
      · refine mem_queued_descend.mpr (.inr ?_)
        rcases List.mem_cons.mp present with rfl | earlier
        · rw [queued_eq front]
          exact List.mem_cons_self
        · exact returns.waiting earlier

/-- Behind the first visit of an item, visits to all its dependencies are still to come. -/
theorem Returns.mem_queued {visit : Visit} {resolution : Resolution} {item : WorkItem}
    (returns : (walk.descend visit resolution).Returns)
    (dependency : item ∈ resolution.relations.dependencies) :
    item ∈ (walk.descend visit resolution).queued := by
  by_cases inside : item ∈ visit.item :: walk.visiting
  · exact returns.waiting inside
  · exact mem_queued_descend.mpr (.inl ⟨dependency, inside⟩)

/-! ## What a walk keeps to -/

/-- How the parts of a walk fit together. The walk is one of a series of walks that began with
the plan `base`. -/
structure Consistent (base : Plan) (resolver : Resolver) (walk : Walk) : Prop where
  accepts : walk.plan.accepts = base.accepts
  cannotRun : ∀ item, (walk.plan.node item).cannotRun = (base.node item).cannotRun
  processed : ∀ item, (walk.plan.node item).processed = true ↔
    item ∈ walk.plan.index ∨ item ∈ walk.plan.filtered
  relations : ∀ item, item ∈ walk.plan.index ∨ item ∈ walk.visiting →
    ∃ resolution, resolver.answer item = .ok resolution ∧
      walk.plan.relations item = resolution.relations
  unrelated : ∀ item, item ∉ walk.plan.index → item ∉ walk.visiting →
    walk.plan.relations item = {}
  unfinished : ∀ item ∈ walk.visiting, (walk.plan.node item).processed = false ∧ base.Admits item
  waiting : walk.visiting ⊆ walk.queued
  entered : walk.visiting.Nodup
  distinct : walk.plan.index.items.Nodup
  asked : ∃ calls, walk.plan.inquiries.asked = base.inquiries.asked ++ calls ∧
    calls.Perm (walk.visiting ++ walk.plan.index.items)

/-- What a walk has met was asked for. -/
structure Sound (base : Plan) (resolver : Resolver) (entries : List WorkItem) (walk : Walk) :
    Prop where
  needed : ∀ item, item ∈ walk.plan.index ∨ item ∈ walk.visiting → base.Needs resolver entries item
  wanted : ∀ item ∈ walk.queued, base.Wants resolver entries item
  rejected : ∀ item ∈ walk.plan.filtered, base.acceptsItem item = false ∧
    (base.node item).cannotRun = false ∧ base.Wants resolver entries item

/-- The walk is done with the item, or has still to visit it. -/
def Covers (walk : Walk) (item : WorkItem) : Prop :=
  (walk.plan.node item).processed = true ∨ (walk.plan.node item).cannotRun = true ∨
    item ∈ walk.queued

/-- Nothing that was asked for is forgotten. -/
structure Covered (entries : List WorkItem) (walk : Walk) : Prop where
  entries : ∀ item ∈ entries, walk.Covers item
  dependencies : ∀ item, item ∈ walk.plan.index ∨ item ∈ walk.visiting →
    ∀ dependency ∈ (walk.plan.relations item).dependencies, walk.Covers dependency
  finalizers : ∀ item ∈ walk.plan.index, ∀ finalizer ∈ (walk.plan.relations item).finalizers,
    walk.Covers finalizer

/-- A walk keeps to what is needed. -/
structure Explores (base : Plan) (resolver : Resolver) (entries : List WorkItem) (walk : Walk) :
    Prop where
  consistent : Consistent base resolver walk
  sound : Sound base resolver entries walk
  covered : Covered entries walk

theorem Consistent.acceptsItem_eq (consistent : Consistent base resolver walk) (item : WorkItem) :
    walk.plan.acceptsItem item = base.acceptsItem item := by
  unfold Plan.acceptsItem
  rw [consistent.accepts]

/-- The relations of an item that has been met are those that the resolver tells. -/
theorem Consistent.relations_eq (consistent : Consistent base resolver walk) {item : WorkItem}
    (known : item ∈ walk.plan.index ∨ item ∈ walk.visiting) {resolution : Resolution}
    (answered : resolver.answer item = .ok resolution) :
    walk.plan.relations item = resolution.relations := by
  obtain ⟨same, agreed, related⟩ := consistent.relations item known
  rw [answered] at agreed
  cases agreed
  exact related

/-- An open visit to an accepted item is one to an item that may be entered. -/
theorem Consistent.admits (consistent : Consistent base resolver walk) {visit : Visit}
    (isOpen : walk.IsOpen visit) (accepted : walk.plan.acceptsItem visit.item = true) :
    base.Admits visit.item :=
  ⟨consistent.acceptsItem_eq visit.item ▸ accepted, consistent.cannotRun visit.item ▸ isOpen.2⟩

theorem Consistent.returns (consistent : Consistent base resolver walk) : walk.Returns := by
  refine ⟨fun item inside => ?_, consistent.waiting, consistent.entered⟩
  obtain ⟨unfinished, accepted, runnable⟩ := consistent.unfinished item inside
  exact ⟨unfinished, (consistent.acceptsItem_eq item).trans accepted,
    (consistent.cannotRun item).trans runnable⟩

theorem Consistent.not_mem_index (consistent : Consistent base resolver walk) {visit : Visit}
    (isOpen : walk.IsOpen visit) : visit.item ∉ walk.plan.index := by
  intro indexed
  have processed := (consistent.processed visit.item).mpr (.inl indexed)
  rw [isOpen.1] at processed
  cases processed

theorem items_insert_of_not_mem {set : ItemSet} {item : WorkItem} (absent : item ∉ set) :
    (set.insert item).items = set.items ++ [item] := by
  rw [ItemSet.insert, if_neg absent]

/-! ## The parts of a walk fit together -/

theorem Consistent.setAside (consistent : Consistent base resolver walk) {visit : Visit}
    {rest : List Visit}
    (returns : Returns { walk with plan := walk.plan.setAside visit.item, queue := rest }) :
    Consistent base resolver
      { walk with plan := walk.plan.setAside visit.item, queue := rest } := by
  refine ⟨consistent.accepts, fun item => ?_, fun item => ?_, fun item present => ?_,
    fun item unindexed unentered => ?_, fun item inside => ?_, returns.waiting,
    returns.entered, consistent.distinct, consistent.asked⟩
  · rw [Plan.cannotRun_setAside]
    exact consistent.cannotRun item
  · rw [Plan.processed_setAside, Bool.or_eq_true, decide_eq_true_eq, consistent.processed]
    show _ ↔ item ∈ walk.plan.index ∨ item ∈ walk.plan.filtered.insert visit.item
    rw [ItemSet.mem_insert]
    exact or_rotate
  · rw [Plan.relations_setAside]
    exact consistent.relations item present
  · rw [Plan.relations_setAside]
    exact consistent.unrelated item unindexed unentered
  · exact ⟨(returns.unfinished item inside).1, (consistent.unfinished item inside).2⟩

theorem Consistent.leave (consistent : Consistent base resolver walk) {visit : Visit}
    {rest : List Visit} (isOpen : walk.IsOpen visit) (inside : visit.item ∈ walk.visiting)
    (returns : (walk.leave visit rest).Returns) :
    Consistent base resolver (walk.leave visit rest) := by
  have absent := consistent.not_mem_index isOpen
  have left : ∀ item, item ∈ walk.visiting.erase visit.item ↔
      item ≠ visit.item ∧ item ∈ walk.visiting := fun item => consistent.entered.mem_erase_iff
  have indexed : ∀ item, item ∈ walk.plan.index.insert visit.item ↔
      item ∈ walk.plan.index ∨ item = visit.item := fun item => ItemSet.mem_insert
  refine ⟨consistent.accepts, fun item => ?_, fun item => ?_, fun item present => ?_,
    fun item unindexed unentered => ?_, fun item entered => ?_, returns.waiting,
    returns.entered, ItemSet.nodup_insert consistent.distinct _, ?_⟩
  · exact (Plan.cannotRun_enroll _ _ _).trans (consistent.cannotRun item)
  · show ((walk.plan.enroll visit.item).node item).processed = true ↔
      item ∈ walk.plan.index.insert visit.item ∨ item ∈ walk.plan.filtered
    rw [Plan.processed_enroll, Bool.or_eq_true, decide_eq_true_eq, consistent.processed, indexed,
      or_left_comm, or_assoc]
  · have before : item ∈ walk.plan.index ∨ item ∈ walk.visiting := by
      rcases present with listed | entered
      · rcases (indexed item).mp listed with old | rfl
        · exact .inl old
        · exact .inr inside
      · exact .inr ((left item).mp entered).2
    obtain ⟨resolution, answered, known⟩ := consistent.relations item before
    exact ⟨resolution, answered, (Plan.relations_enroll _ _ _).trans known⟩
  · have elsewhere : item ∉ walk.plan.index ∧ item ≠ visit.item :=
      not_or.mp fun listed => unindexed ((indexed item).mpr listed)
    exact (Plan.relations_enroll _ _ _).trans (consistent.unrelated item elsewhere.1
      fun entered => unentered ((left item).mpr ⟨elsewhere.2, entered⟩))
  · exact ⟨(returns.unfinished item entered).1,
      (consistent.unfinished item ((left item).mp entered).2).2⟩
  · obtain ⟨calls, asked, known⟩ := consistent.asked
    refine ⟨calls, asked, ?_⟩
    show calls.Perm
      (walk.visiting.erase visit.item ++ (walk.plan.index.insert visit.item).items)
    rw [items_insert_of_not_mem absent]
    calc calls.Perm (walk.visiting ++ walk.plan.index.items) := known
      _ |>.Perm (visit.item :: walk.visiting.erase visit.item ++ walk.plan.index.items) :=
        (List.perm_cons_erase inside).append_right _
      _ |>.Perm (walk.visiting.erase visit.item ++ (walk.plan.index.items ++ [visit.item])) := by
        rw [← List.append_assoc]
        exact (List.perm_append_singleton _ _).symm

theorem Consistent.descend (consistent : Consistent base resolver walk) {visit : Visit}
    {resolution : Resolution} (isOpen : walk.IsOpen visit)
    (accepted : walk.plan.acceptsItem visit.item = true)
    (answered : resolver.answer visit.item = .ok resolution)
    (returns : (walk.descend visit resolution).Returns) :
    Consistent base resolver (walk.descend visit resolution) := by
  have absent := consistent.not_mem_index isOpen
  have related : ∀ item, (walk.descend visit resolution).plan.relations item =
      if item = visit.item then resolution.relations else walk.plan.relations item :=
    fun item => Plan.relations_adopt_inquire _ _ _ item
  have processed : ∀ item, ((walk.descend visit resolution).plan.node item).processed =
      (walk.plan.node item).processed := fun item => Plan.processed_adopt_inquire _ _ _ item
  refine ⟨consistent.accepts, fun item => ?_, fun item => ?_, fun item present => ?_,
    fun item unindexed unentered => ?_, fun item entered => ?_, returns.waiting,
    returns.entered, consistent.distinct, ?_⟩
  · exact (Plan.cannotRun_adopt_inquire _ _ _ _).trans (consistent.cannotRun item)
  · rw [processed]
    exact consistent.processed item
  · rw [related]
    split
    next same => exact ⟨resolution, same ▸ answered, rfl⟩
    next different =>
      exact consistent.relations item
        (present.imp id fun entered => (List.mem_cons.mp entered).resolve_left different)
  · have different : item ≠ visit.item := fun same => unentered (same ▸ List.mem_cons_self)
    rw [related, if_neg different]
    exact consistent.unrelated item unindexed
      fun entered => unentered (List.mem_cons_of_mem _ entered)
  · refine ⟨(returns.unfinished item entered).1, ?_⟩
    rcases List.mem_cons.mp entered with rfl | before
    · exact consistent.admits isOpen accepted
    · exact (consistent.unfinished item before).2
  · obtain ⟨calls, asked, known⟩ := consistent.asked
    refine ⟨calls ++ [visit.item], ?_, ?_⟩
    · show walk.plan.inquiries.asked ++ [visit.item] = _
      rw [asked, List.append_assoc]
    · exact (List.perm_append_singleton _ _).trans (known.cons _)

theorem Moves.consistent (moves : Moves resolver walk next)
    (consistent : Consistent base resolver walk) : Consistent base resolver next := by
  have returns := moves.returns consistent.returns
  cases moves with
  | drop => exact { consistent with waiting := returns.waiting }
  | setAside => exact consistent.setAside returns
  | leave _ isOpen _ inside => exact consistent.leave isOpen inside returns
  | descend _ isOpen accepted _ answered =>
      exact consistent.descend isOpen accepted answered returns

/-! ## Nothing is met that was not asked for -/

theorem mem_known_leave {visit : Visit} {rest : List Visit} {item : WorkItem}
    (inside : visit.item ∈ walk.visiting)
    (known : item ∈ (walk.leave visit rest).plan.index ∨ item ∈ (walk.leave visit rest).visiting) :
    item ∈ walk.plan.index ∨ item ∈ walk.visiting := by
  rcases known with listed | entered
  · rcases ItemSet.mem_insert.mp listed with old | rfl
    · exact .inl old
    · exact .inr inside
  · exact .inr (List.mem_of_mem_erase entered)

theorem Moves.sound (moves : Moves resolver walk next)
    (consistent : Consistent base resolver walk) (sound : Sound base resolver entries walk) :
    Sound base resolver entries next := by
  cases moves with
  | drop front shut =>
      refine ⟨sound.needed, fun item member => sound.wanted item ?_, sound.rejected⟩
      rw [queued_eq front]
      exact List.mem_cons_of_mem _ member
  | @setAside visit rest front isOpen rejected =>
      have wanted := sound.wanted visit.item (queued_eq front ▸ List.mem_cons_self)
      refine ⟨sound.needed, fun item member => sound.wanted item ?_, fun item member => ?_⟩
      · rw [queued_eq front]
        exact List.mem_cons_of_mem _ member
      · rcases ItemSet.mem_insert.mp member with old | rfl
        · exact sound.rejected item old
        · exact ⟨consistent.acceptsItem_eq visit.item ▸ rejected,
            consistent.cannotRun visit.item ▸ isOpen.2, wanted⟩
  | @leave visit rest front isOpen accepted inside =>
      refine ⟨fun item known => sound.needed item (mem_known_leave inside known),
        fun item member => ?_, sound.rejected⟩
      rcases mem_queued_leave.mp member with ⟨finalizer, _⟩ | behind
      · obtain ⟨resolution, answered, related⟩ := consistent.relations visit.item (.inr inside)
        rw [related] at finalizer
        exact .inr ⟨visit.item, sound.needed visit.item (.inr inside),
          resolution, answered, .inr finalizer⟩
      · exact sound.wanted item (queued_eq front ▸ List.mem_cons_of_mem _ behind)
  | @descend visit rest resolution front isOpen accepted outside answered =>
      have wanted := sound.wanted visit.item (queued_eq front ▸ List.mem_cons_self)
      have needs := wanted.needs (consistent.admits isOpen accepted)
      refine ⟨fun item known => ?_, fun item member => ?_, sound.rejected⟩
      · rcases known with listed | entered
        · exact sound.needed item (.inl listed)
        · rcases List.mem_cons.mp entered with rfl | before
          · exact needs
          · exact sound.needed item (.inr before)
      · rcases mem_queued_descend.mp member with ⟨dependency, _⟩ | before
        · exact .inr ⟨visit.item, needs, resolution, answered, .inl dependency⟩
        · exact sound.wanted item before

/-! ## Nothing is forgotten -/

/-- Once covered, always covered. -/
theorem Moves.covers (moves : Moves resolver walk next) {item : WorkItem}
    (covers : walk.Covers item) : next.Covers item := by
  have grows := moves.growsInto.catalog item
  rcases covers with processed | barred | queued
  · exact .inl (grows.keeps processed).2.2.2
  · exact .inr (.inl (grows.cannotRun.trans barred))
  · cases moves with
    | @drop visit rest front shut =>
        rw [queued_eq front] at queued
        rcases List.mem_cons.mp queued with rfl | behind
        · cases processed : (walk.plan.node visit.item).processed with
          | true => exact .inl processed
          | false =>
              refine .inr (.inl ?_)
              cases barred : (walk.plan.node visit.item).cannotRun with
              | true => rfl
              | false => exact absurd ⟨processed, barred⟩ shut
        · exact .inr (.inr behind)
    | @setAside visit rest front isOpen rejected =>
        rw [queued_eq front] at queued
        rcases List.mem_cons.mp queued with rfl | behind
        · left
          rw [Plan.processed_setAside, decide_eq_true rfl, Bool.true_or]
        · exact .inr (.inr behind)
    | @leave visit rest front isOpen accepted inside =>
        rw [queued_eq front] at queued
        rcases List.mem_cons.mp queued with rfl | behind
        · left
          show ((walk.plan.enroll visit.item).node visit.item).processed = true
          rw [Plan.processed_enroll, decide_eq_true rfl, Bool.true_or]
        · exact .inr (.inr (mem_queued_leave.mpr (.inr behind)))
    | descend => exact .inr (.inr (mem_queued_descend.mpr (.inr queued)))

theorem Moves.covered (moves : Moves resolver walk next)
    (consistent : Consistent base resolver walk) (covered : Covered entries walk) :
    Covered entries next := by
  have kept : ∀ item, walk.Covers item → next.Covers item := fun _ => moves.covers
  have returns := moves.returns consistent.returns
  refine ⟨fun item requested => kept item (covered.entries item requested), ?_, ?_⟩
  · intro item known dependency member
    cases moves with
    | drop => exact kept _ (covered.dependencies item known dependency member)
    | setAside =>
        rw [Plan.relations_setAside] at member
        exact kept _ (covered.dependencies item known dependency member)
    | @leave visit rest front isOpen accepted inside =>
        rw [show (walk.leave visit rest).plan.relations item = _ from
          Plan.relations_enroll walk.plan visit.item item] at member
        exact kept _ (covered.dependencies item (mem_known_leave inside known) dependency member)
    | @descend visit rest resolution front isOpen accepted outside answered =>
        rw [show (walk.descend visit resolution).plan.relations item = _ from
          Plan.relations_adopt_inquire walk.plan visit.item resolution item] at member
        split at member
        next => exact .inr (.inr (returns.mem_queued member))
        next different =>
          exact kept _ (covered.dependencies item
            (known.imp id fun entered => (List.mem_cons.mp entered).resolve_left different)
            dependency member)
  · intro item listed finalizer member
    cases moves with
    | drop => exact kept _ (covered.finalizers item listed finalizer member)
    | setAside =>
        rw [Plan.relations_setAside] at member
        exact kept _ (covered.finalizers item listed finalizer member)
    | @leave visit rest front isOpen accepted inside =>
        rw [show (walk.leave visit rest).plan.relations item = _ from
          Plan.relations_enroll walk.plan visit.item item] at member
        rcases ItemSet.mem_insert.mp listed with old | rfl
        · exact kept _ (covered.finalizers item old finalizer member)
        · refine .inr (.inr (mem_queued_leave.mpr ?_))
          by_cases entered : finalizer ∈ walk.visiting.erase visit.item
          · obtain ⟨different, before⟩ := consistent.entered.mem_erase_iff.mp entered
            exact .inr (consistent.returns.waiting_tail front before different)
          · exact .inl ⟨member, entered⟩
    | @descend visit rest resolution front isOpen accepted outside answered =>
        have different : item ≠ visit.item := fun same =>
          consistent.not_mem_index isOpen (same ▸ listed)
        rw [show (walk.descend visit resolution).plan.relations item = _ from
          Plan.relations_adopt_inquire walk.plan visit.item resolution item, if_neg different]
          at member
        exact kept _ (covered.finalizers item listed finalizer member)

theorem Moves.explores (moves : Moves resolver walk next)
    (explores : Explores base resolver entries walk) : Explores base resolver entries next :=
  ⟨moves.consistent explores.consistent, moves.sound explores.consistent explores.sound,
    moves.covered explores.consistent explores.covered⟩

theorem Reaches.explores {last : Walk} (reaches : Reaches resolver walk last)
    (explores : Explores base resolver entries walk) : Explores base resolver entries last := by
  induction reaches with
  | refl => exact explores
  | tail _ moves ih => exact moves.explores ih

/-! ## The end of a walk -/

theorem Explores.visiting_eq_nil (explores : Explores base resolver entries walk)
    (ended : walk.queue = []) : walk.visiting = [] := by
  refine List.eq_nil_iff_forall_not_mem.mpr fun item inside => ?_
  have queued := explores.consistent.waiting inside
  rw [Walk.queued, ended] at queued
  cases queued

theorem Covers.known (consistent : Consistent base resolver walk) (ended : walk.queue = [])
    {item : WorkItem} (covers : walk.Covers item) (runnable : (base.node item).cannotRun = false) :
    item ∈ walk.plan.index ∨ item ∈ walk.plan.filtered := by
  rcases covers with processed | barred | queued
  · exact (consistent.processed item).mp processed
  · rw [consistent.cannotRun, runnable] at barred
    cases barred
  · rw [Walk.queued, ended] at queued
    cases queued

theorem Covers.mem_index (explores : Explores base resolver entries walk) (ended : walk.queue = [])
    {item : WorkItem} (covers : walk.Covers item) (admits : base.Admits item) :
    item ∈ walk.plan.index := by
  rcases covers.known explores.consistent ended admits.2 with listed | rejected
  · exact listed
  · have refused := (explores.sound.rejected item rejected).1
    rw [admits.1] at refused
    cases refused

/-- The index of a walk at its end is exactly what is needed. -/
theorem Explores.mem_index_iff (explores : Explores base resolver entries walk)
    (ended : walk.queue = []) {item : WorkItem} :
    item ∈ walk.plan.index ↔ base.Needs resolver entries item := by
  have indexed : ∀ other, walk.Covers other → base.Admits other → other ∈ walk.plan.index :=
    fun _ => Covers.mem_index explores ended
  obtain ⟨consistent, sound, covered⟩ := explores
  constructor
  · exact fun listed => sound.needed item (.inl listed)
  · intro needs
    induction needs with
    | entry requested admits => exact indexed _ (covered.entries _ requested) admits
    | @successor source target _ leads admits ih =>
        obtain ⟨resolution, answered, either⟩ := leads
        have related := consistent.relations_eq (.inl ih) answered
        refine indexed target ?_ admits
        rcases either with dependency | finalizer
        · exact covered.dependencies source (.inl ih) target (related ▸ dependency)
        · exact covered.finalizers source ih target (related ▸ finalizer)

/-- The items that a walk has set aside at its end are exactly those that are wanted and could
run, but are rejected by the filter. -/
theorem Explores.mem_filtered_iff (explores : Explores base resolver entries walk)
    (ended : walk.queue = []) {item : WorkItem} :
    item ∈ walk.plan.filtered ↔ base.acceptsItem item = false ∧
      (base.node item).cannotRun = false ∧ base.Wants resolver entries item := by
  have needed : ∀ other, other ∈ walk.plan.index ↔ base.Needs resolver entries other :=
    fun _ => explores.mem_index_iff ended
  obtain ⟨consistent, sound, covered⟩ := explores
  refine ⟨sound.rejected item, fun ⟨refused, runnable, wants⟩ => ?_⟩
  have covers : walk.Covers item := by
    rcases wants with requested | ⟨source, needs, resolution, answered, either⟩
    · exact covered.entries item requested
    · have listed := (needed source).mpr needs
      have related := consistent.relations_eq (.inl listed) answered
      rcases either with dependency | finalizer
      · exact covered.dependencies source (.inl listed) item (related ▸ dependency)
      · exact covered.finalizers source listed item (related ▸ finalizer)
  rcases covers.known consistent ended runnable with listed | rejected
  · have accepted := ((needed item).mp listed).admits.1
    rw [refused] at accepted
    cases accepted
  · exact rejected

end Walk

end TaskPlanner
