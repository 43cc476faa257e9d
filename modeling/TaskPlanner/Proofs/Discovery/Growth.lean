import TaskPlanner.Proofs.Discovery.Moves

/-! A walk only adds to a plan, also if it stops half-way. What was found out about an item stays,
except that the item may join a batch or move to an earlier one. -/

set_option autoImplicit false

namespace TaskPlanner

theorem ItemSet.prefix_insert (set : ItemSet) (item : WorkItem) :
    set.items <+: (set.insert item).items := by
  unfold insert
  split
  · exact List.prefix_refl _
  · exact List.prefix_append _ _

/-! ## Nodes -/

/-- An item joins its first batch, and later only earlier ones. -/
inductive Advances : Option Ordinal → Option Ordinal → Prop where
  | stays {group} : Advances group group
  | joins {ordinal} : Advances none (some ordinal)
  | moves {earlier later} : earlier < later → Advances (some later) (some earlier)

theorem Advances.trans {before middle after : Option Ordinal} (first : Advances before middle)
    (second : Advances middle after) : Advances before after := by
  cases first with
  | stays => exact second
  | joins =>
      cases second with
      | stays => exact .joins
      | moves => exact .joins
  | moves order =>
      cases second with
      | stays => exact .moves order
      | moves orderToo => exact .moves (Fin.lt_trans orderToo order)

theorem Advances.cases {before after : Option Ordinal} (advances : Advances before after) :
    after = before ∨
      ∃ ordinal, after = some ordinal ∧ ∀ present, before = some present → ordinal < present := by
  cases advances with
  | stays => exact .inl rfl
  | joins => exact .inr ⟨_, rfl, nofun⟩
  | moves order => exact .inr ⟨_, rfl, fun _ same => Option.some.inj same ▸ order⟩

namespace Node

/-- What becomes of a node as its plan grows. Of a finished one, only the batch is still open, and
whether the work was done before. -/
structure GrowsInto (before after : Node) : Prop where
  group : Advances before.group after.group
  cannotRun : after.cannotRun = before.cannotRun
  finished : before.processed = true →
    after = { before with group := after.group, executed := after.executed }

variable {before middle after node : Node}

theorem GrowsInto.refl (node : Node) : node.GrowsInto node := ⟨.stays, rfl, fun _ => rfl⟩

theorem GrowsInto.trans (first : before.GrowsInto middle) (second : middle.GrowsInto after) :
    before.GrowsInto after := by
  refine ⟨first.group.trans second.group, second.cannotRun.trans first.cannotRun,
    fun finished => ?_⟩
  have same := first.finished finished
  have later := second.finished (by rw [same]; exact finished)
  rw [same] at later
  exact later

theorem GrowsInto.of_unfinished (unfinished : before.processed = false)
    (group : after.group = before.group) (cannotRun : after.cannotRun = before.cannotRun) :
    before.GrowsInto after := by
  refine ⟨group ▸ .stays, cannotRun, fun finished => ?_⟩
  rw [unfinished] at finished
  cases finished

theorem GrowsInto.keeps (grows : before.GrowsInto after) (finished : before.processed = true) :
    after.relations = before.relations ∧ after.required = before.required ∧
      after.filtered = before.filtered ∧ after.processed = true := by
  rw [grows.finished finished]
  exact ⟨rfl, rfl, rfl, finished⟩

theorem growsInto_executed (node : Node) (executed : Bool) :
    node.GrowsInto { node with executed } :=
  ⟨.stays, rfl, fun _ => rfl⟩

theorem growsInto_join (node : Node) (group : Option Ordinal) : node.GrowsInto (node.join group) := by
  unfold join
  cases group with
  | none => exact .refl node
  | some ordinal =>
      dsimp only
      split
      next accepted =>
        refine ⟨?_, rfl, fun _ => rfl⟩
        cases present : node.group with
        | none => exact .joins
        | some current =>
            rw [present] at accepted
            exact .moves (of_decide_eq_true accepted)
      next => exact .refl node

end Node

namespace Catalog

/-- Every node grows. -/
def GrowsInto (before after : Catalog) : Prop :=
  ∀ item, (before.node item).GrowsInto (after.node item)

variable {catalog before middle after : Catalog} {item : WorkItem} {change : Node → Node}

theorem GrowsInto.refl (catalog : Catalog) : catalog.GrowsInto catalog := fun _ => .refl _

theorem GrowsInto.trans (first : before.GrowsInto middle) (second : middle.GrowsInto after) :
    before.GrowsInto after :=
  fun item => (first item).trans (second item)

/-- A change of an item that is not finished affects no finished one. -/
theorem growsInto_update (change : Node → Node)
    (unfinished : (catalog.node item).processed = false)
    (group : ∀ node, (change node).group = node.group)
    (cannotRun : ∀ node, (change node).cannotRun = node.cannotRun) :
    catalog.GrowsInto (catalog.update item change) := by
  intro other
  rw [node_update]
  split
  next here =>
    subst here
    exact .of_unfinished unfinished (group _) (cannotRun _)
  next => exact .refl _

theorem growsInto_updateAll (grows : ∀ node : Node, node.GrowsInto (change node))
    (items : List WorkItem) : catalog.GrowsInto (catalog.updateAll items change) := fun other =>
  updateAll_keeps (catalog.node other).GrowsInto (fun _ node grown => grown.trans (grows node))
    (.refl _)

theorem growsInto_record (catalog : Catalog) (resolution : Resolution) :
    catalog.GrowsInto (catalog.record resolution) := fun other =>
  record_keeps (catalog.node other).GrowsInto
    (fun node executed grown => grown.trans (node.growsInto_executed executed)) (.refl _)

theorem processed_record (catalog : Catalog) (resolution : Resolution) (item : WorkItem) :
    ((catalog.record resolution).node item).processed = (catalog.node item).processed :=
  record_keeps (fun node => node.processed = (catalog.node item).processed) (fun _ _ => id) rfl

end Catalog

/-! ## Plans -/

namespace Plan

/-- The plan holds what it held before, in the same order. -/
structure GrowsInto (before after : Plan) : Prop where
  index : before.index.items <+: after.index.items
  filtered : before.filtered.items <+: after.filtered.items
  catalog : before.catalog.GrowsInto after.catalog

variable {plan before middle after : Plan} {item : WorkItem}

theorem GrowsInto.refl (plan : Plan) : plan.GrowsInto plan :=
  ⟨List.prefix_refl _, List.prefix_refl _, .refl _⟩

theorem GrowsInto.trans (first : before.GrowsInto middle) (second : middle.GrowsInto after) :
    before.GrowsInto after :=
  ⟨first.index.trans second.index, first.filtered.trans second.filtered,
    first.catalog.trans second.catalog⟩

theorem growsInto_setAside (unfinished : (plan.node item).processed = false) :
    plan.GrowsInto (plan.setAside item) :=
  ⟨List.prefix_refl _, plan.filtered.prefix_insert item,
    Catalog.growsInto_update _ unfinished (fun _ => rfl) fun _ => rfl⟩

theorem growsInto_enroll (unfinished : (plan.node item).processed = false) :
    plan.GrowsInto (plan.enroll item) :=
  ⟨plan.index.prefix_insert item, List.prefix_refl _,
    Catalog.growsInto_update _ unfinished (fun _ => rfl) fun _ => rfl⟩

theorem growsInto_inquire (unfinished : (plan.node item).processed = false) :
    plan.GrowsInto (plan.inquire item) :=
  ⟨List.prefix_refl _, List.prefix_refl _,
    Catalog.growsInto_update _ unfinished (fun _ => rfl) fun _ => rfl⟩

/-- The answer of a resolver replaces the relations of one item, which is not finished. What else
it changes, it may change in a finished item too. -/
theorem growsInto_adopt (unfinished : (plan.node item).processed = false)
    (resolution : Resolution) : plan.GrowsInto (plan.adopt item resolution) := by
  refine ⟨List.prefix_refl _, List.prefix_refl _, ?_⟩
  rw [catalog_adopt]
  have recorded := plan.catalog.growsInto_record resolution
  have still := (plan.catalog.processed_record resolution item).trans unfinished
  have related := Catalog.growsInto_update
    (fun node => { node with relations := resolution.relations }) still (fun _ => rfl) fun _ => rfl
  exact (recorded.trans related).trans
    (Catalog.growsInto_updateAll (fun node => node.growsInto_join _) _)

end Plan

/-! ## Walks -/

namespace Walk

variable {resolver : Resolver} {walk next : Walk}

/-- Entering an item tells something about items that were finished before, too. -/
theorem growsInto_descend {visit : Visit} (isOpen : walk.IsOpen visit) (resolution : Resolution) :
    walk.plan.GrowsInto (walk.descend visit resolution).plan := by
  have inquired := Plan.growsInto_inquire isOpen.1
  refine inquired.trans (Plan.growsInto_adopt ?_ resolution)
  exact Plan.inquire_keeps (fun node => node.processed = false) (fun _ _ => id) isOpen.1

theorem Moves.growsInto (moves : Moves resolver walk next) : walk.plan.GrowsInto next.plan := by
  cases moves with
  | drop => exact .refl _
  | setAside _ isOpen => exact Plan.growsInto_setAside isOpen.1
  | leave _ isOpen => exact Plan.growsInto_enroll isOpen.1
  | descend _ isOpen => exact growsInto_descend isOpen _

theorem Reaches.growsInto {last : Walk} (reaches : Reaches resolver walk last) :
    walk.plan.GrowsInto last.plan := by
  induction reaches with
  | refl => exact .refl _
  | tail _ moves ih => exact ih.trans moves.growsInto

/-- A walk that stops half-way leaves a plan that has grown, too. -/
theorem Stops.growsInto {attempt : Attempt Unit} (stops : Stops resolver walk attempt) :
    walk.plan.GrowsInto attempt.plan := by
  cases stops with
  | done => exact .refl _
  | unresolved _ isOpen => exact Plan.growsInto_inquire isOpen.1
  | cycle _ isOpen => exact growsInto_descend isOpen _

end Walk

end TaskPlanner
