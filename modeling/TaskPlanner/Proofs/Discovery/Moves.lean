import Mathlib.Logic.Relation
import TaskPlanner.Plan.Discovery

/-! The steps of a walk, told apart, and what each of them changes in the plan. -/

set_option autoImplicit false

namespace TaskPlanner

/-! ## Nodes under changes of the catalog -/

namespace Catalog

variable {catalog : Catalog} {change : Node → Node} {item other : WorkItem}

/-- What a change of a node keeps, it keeps in the catalog. -/
theorem update_keeps (property : Node → Prop)
    (keeps : ∀ node, property node → property (change node))
    (holds : property (catalog.node other)) :
    property ((catalog.update item change).node other) := by
  rw [node_update]
  split
  next same => exact keeps _ (same ▸ holds)
  next => exact holds

/-- A change that finishes a node finishes that of one item. -/
theorem processed_update (finishes : ∀ node, (change node).processed = true) :
    ((catalog.update item change).node other).processed =
      (decide (other = item) || (catalog.node other).processed) := by
  rw [node_update]
  split
  next same => simp [same, finishes]
  next different => simp [different]

theorem updateAll_keeps (property : Node → Prop) {items : List WorkItem}
    (keeps : other ∈ items → ∀ node, property node → property (change node))
    (holds : property (catalog.node other)) :
    property ((catalog.updateAll items change).node other) := by
  induction items generalizing catalog with
  | nil => exact holds
  | cons item rest ih =>
      have behind := fun listed : other ∈ rest => keeps (List.mem_cons_of_mem _ listed)
      refine @ih (catalog.update item change) behind ?_
      rw [node_update]
      split
      next same =>
        subst same
        exact keeps List.mem_cons_self _ holds
      next => exact holds

theorem node_updateAll_of_not_mem {items : List WorkItem} (absent : other ∉ items) :
    (catalog.updateAll items change).node other = catalog.node other :=
  updateAll_keeps (fun node => node = catalog.node other) (fun listed => absurd listed absent) rfl

/-- What the change of a node brings about, it brings about in the catalog. -/
theorem updateAll_brings (property : Node → Prop) (brings : ∀ node, property (change node))
    {items : List WorkItem} (listed : other ∈ items) :
    property ((catalog.updateAll items change).node other) := by
  induction items generalizing catalog with
  | nil => cases listed
  | cons item rest ih =>
      by_cases later : other ∈ rest
      · exact @ih (catalog.update item change) later
      · show property (((catalog.update item change).updateAll rest change).node other)
        rw [node_updateAll_of_not_mem later, (List.mem_cons.mp listed).resolve_right later,
          node_update_self]
        exact brings _

/-- A change that is the same twice is made to all of the items, and to no other item. -/
theorem node_updateAll {items : List WorkItem} (change : Node → Node)
    (same : ∀ node, change (change node) = change node) (item : WorkItem) :
    (catalog.updateAll items change).node item =
      if item ∈ items then change (catalog.node item) else catalog.node item := by
  induction items generalizing catalog with
  | nil => rfl
  | cons head rest ih =>
      show ((catalog.update head change).updateAll rest change).node item = _
      rw [ih, node_update]
      by_cases here : item = head
      · subst here
        by_cases later : item ∈ rest
        · simp [later, same]
        · simp [later]
      · simp [here]

/-- Mentions of a resolution change nothing but what has been executed. -/
theorem record_keeps (property : Node → Prop)
    (keeps : ∀ node executed, property node → property { node with executed })
    {resolution : Resolution} (holds : property (catalog.node other)) :
    property ((catalog.record resolution).node other) := by
  unfold record
  rw [node_internAll]
  generalize resolution.successors = successors
  induction successors generalizing catalog with
  | nil => exact holds
  | cons successor rest ih =>
      exact @ih (catalog.update successor.item _)
        (update_keeps property (fun _ => keeps _ _) holds)

end Catalog

theorem Resolution.dependencies_subset_mentioned (resolution : Resolution) :
    resolution.relations.dependencies ⊆ resolution.mentioned := by
  intro item member
  obtain ⟨successor, listed, rfl⟩ := List.mem_map.mp member
  exact List.mem_append_left _ (List.mem_map_of_mem (List.mem_filter.mp listed).1)

theorem Node.join_keeps (property : Node → Prop)
    (keeps : ∀ node group, property node → property { node with group }) (node : Node)
    (group : Option Ordinal) (holds : property node) : property (node.join group) := by
  unfold Node.join
  split
  · exact holds
  · split
    · exact keeps _ _ holds
    · exact holds

@[simp] theorem Node.processed_join (node : Node) (group : Option Ordinal) :
    (node.join group).processed = node.processed :=
  Node.join_keeps (fun other => other.processed = node.processed) (fun _ _ => id) node group rfl

@[simp] theorem Node.cannotRun_join (node : Node) (group : Option Ordinal) :
    (node.join group).cannotRun = node.cannotRun :=
  Node.join_keeps (fun other => other.cannotRun = node.cannotRun) (fun _ _ => id) node group rfl

@[simp] theorem Node.relations_join (node : Node) (group : Option Ordinal) :
    (node.join group).relations = node.relations :=
  Node.join_keeps (fun other => other.relations = node.relations) (fun _ _ => id) node group rfl

/-! ## Nodes under the changes of a walk -/

namespace Plan

variable {plan : Plan} {item : WorkItem}

theorem inquire_keeps (property : Node → Prop)
    (keeps : ∀ node required, property node → property { node with required })
    {other : WorkItem} (holds : property (plan.node other)) :
    property ((plan.inquire item).node other) :=
  Catalog.update_keeps property (fun node => keeps node true) holds

@[simp] theorem processed_setAside (plan : Plan) (item other : WorkItem) :
    ((plan.setAside item).node other).processed =
      (decide (other = item) || (plan.node other).processed) :=
  Catalog.processed_update fun _ => rfl

@[simp] theorem cannotRun_setAside (plan : Plan) (item other : WorkItem) :
    ((plan.setAside item).node other).cannotRun = (plan.node other).cannotRun :=
  Catalog.update_keeps (fun node => node.cannotRun = (plan.node other).cannotRun) (fun _ => id) rfl

@[simp] theorem relations_setAside (plan : Plan) (item other : WorkItem) :
    (plan.setAside item).relations other = plan.relations other :=
  Catalog.update_keeps (fun node => node.relations = plan.relations other) (fun _ => id) rfl

@[simp] theorem processed_enroll (plan : Plan) (item other : WorkItem) :
    ((plan.enroll item).node other).processed =
      (decide (other = item) || (plan.node other).processed) :=
  Catalog.processed_update fun _ => rfl

@[simp] theorem cannotRun_enroll (plan : Plan) (item other : WorkItem) :
    ((plan.enroll item).node other).cannotRun = (plan.node other).cannotRun :=
  Catalog.update_keeps (fun node => node.cannotRun = (plan.node other).cannotRun) (fun _ => id) rfl

@[simp] theorem relations_enroll (plan : Plan) (item other : WorkItem) :
    (plan.enroll item).relations other = plan.relations other :=
  Catalog.update_keeps (fun node => node.relations = plan.relations other) (fun _ => id) rfl

/-- The answer of a resolver changes relations and what has been executed. Then the hard successors
join the batch of the item. -/
theorem catalog_adopt (plan : Plan) (item : WorkItem) (resolution : Resolution) :
    (plan.adopt item resolution).catalog =
      ((plan.catalog.record resolution).update item fun node =>
        { node with relations := resolution.relations }).updateAll
          resolution.relations.hardSuccessors (·.join (plan.node item).group) := by
  have group : (((plan.catalog.record resolution).update item fun node =>
      { node with relations := resolution.relations }).node item).group =
        (plan.node item).group := by
    rw [Catalog.node_update_self]
    exact Catalog.record_keeps (fun node => node.group = (plan.node item).group) (fun _ _ => id) rfl
  rw [← group]
  rfl

theorem adopt_brings (property : Node → Prop) {resolution : Resolution} {other : WorkItem}
    (join : ∀ node, property (Node.join node (plan.node item).group))
    (listed : other ∈ resolution.relations.hardSuccessors) :
    property ((plan.adopt item resolution).node other) := by
  show property ((plan.adopt item resolution).catalog.node other)
  rw [catalog_adopt]
  exact Catalog.updateAll_brings property join listed

theorem adopt_keeps_joined (property : Node → Prop)
    (executed : ∀ node executed, property node → property { node with executed })
    (relations : ∀ node relations, property node → property { node with relations })
    (resolution : Resolution) {other : WorkItem}
    (join : other ∈ resolution.relations.hardSuccessors →
      ∀ node, property node → property (Node.join node (plan.node item).group))
    (holds : property (plan.node other)) :
    property ((plan.adopt item resolution).node other) := by
  show property ((plan.adopt item resolution).catalog.node other)
  rw [catalog_adopt]
  exact Catalog.updateAll_keeps property join
    (Catalog.update_keeps property (fun node => relations node _)
      (Catalog.record_keeps property executed holds))

theorem adopt_keeps (property : Node → Prop)
    (executed : ∀ node executed, property node → property { node with executed })
    (join : ∀ node group, property node → property (Node.join node group))
    (relations : ∀ node relations, property node → property { node with relations })
    (resolution : Resolution) {other : WorkItem} (holds : property (plan.node other)) :
    property ((plan.adopt item resolution).node other) :=
  adopt_keeps_joined property executed relations resolution (fun _ node => join node _) holds

@[simp] theorem group_inquire (plan : Plan) (item other : WorkItem) :
    ((plan.inquire item).node other).group = (plan.node other).group :=
  inquire_keeps (fun node => node.group = (plan.node other).group) (fun _ _ => id) rfl

/-- Asking about an item and taking over the answer leaves open which items are finished. -/
@[simp] theorem processed_adopt_inquire (plan : Plan) (item : WorkItem) (resolution : Resolution)
    (other : WorkItem) :
    (((plan.inquire item).adopt item resolution).node other).processed =
      (plan.node other).processed :=
  adopt_keeps (fun node => node.processed = (plan.node other).processed)
    (fun _ _ => id) (fun node _ => (node.processed_join _).trans) (fun _ _ => id) resolution
    (inquire_keeps (fun node => node.processed = (plan.node other).processed) (fun _ _ => id) rfl)

@[simp] theorem cannotRun_adopt_inquire (plan : Plan) (item : WorkItem) (resolution : Resolution)
    (other : WorkItem) :
    (((plan.inquire item).adopt item resolution).node other).cannotRun =
      (plan.node other).cannotRun :=
  adopt_keeps (fun node => node.cannotRun = (plan.node other).cannotRun)
    (fun _ _ => id) (fun node _ => (node.cannotRun_join _).trans) (fun _ _ => id) resolution
    (inquire_keeps (fun node => node.cannotRun = (plan.node other).cannotRun) (fun _ _ => id) rfl)

@[simp] theorem relations_adopt_inquire (plan : Plan) (item : WorkItem) (resolution : Resolution)
    (other : WorkItem) :
    ((plan.inquire item).adopt item resolution).relations other =
      if other = item then resolution.relations else plan.relations other := by
  refine Catalog.updateAll_keeps (fun node => node.relations = _)
    (fun _ node same => (node.relations_join _).trans same) ?_
  rw [Catalog.node_update]
  split
  · rfl
  · exact Catalog.record_keeps (fun node => node.relations = plan.relations other)
      (fun _ _ => id) (inquire_keeps (fun node => node.relations = plan.relations other)
        (fun _ _ => id) rfl)

/-- `after` knows more about items than `before`, but nothing else is different. -/
def KeepsRequests (before after : Plan) : Prop :=
  after = { before with
    catalog := after.catalog
    index := after.index
    filtered := after.filtered
    finalizers := after.finalizers
    inquiries := after.inquiries }

theorem KeepsRequests.trans {before middle after : Plan} (first : before.KeepsRequests middle)
    (second : middle.KeepsRequests after) : before.KeepsRequests after := by
  unfold KeepsRequests at *
  rw [first] at second
  exact second

end Plan

/-! ## Steps -/

namespace Walk

variable {resolver : Resolver} {walk next : Walk}

/-- The walk behind the first visit of an item, given what the resolver tells about it. -/
def descend (walk : Walk) (visit : Visit) (resolution : Resolution) : Walk where
  plan := (walk.plan.inquire visit.item).adopt visit.item resolution
  queue := ((resolution.relations.dependencies.filter (· ∉ visit.item :: walk.visiting)).map
    fun item => ⟨item, .dependency⟩) ++ walk.queue
  visiting := visit.item :: walk.visiting
  path := visit :: walk.path

/-- The item of a visit is neither finished nor out of bounds. -/
def IsOpen (walk : Walk) (visit : Visit) : Prop :=
  (walk.plan.node visit.item).processed = false ∧ (walk.plan.node visit.item).cannotRun = false

/-- The steps after which a walk goes on. -/
inductive Moves (resolver : Resolver) (walk : Walk) : Walk → Prop where
  | drop {visit : Visit} {rest : List Visit} :
      walk.queue = visit :: rest → ¬ walk.IsOpen visit →
      Moves resolver walk { walk with queue := rest }
  | setAside {visit : Visit} {rest : List Visit} :
      walk.queue = visit :: rest → walk.IsOpen visit →
      walk.plan.acceptsItem visit.item = false →
      Moves resolver walk { walk with plan := walk.plan.setAside visit.item, queue := rest }
  | leave {visit : Visit} {rest : List Visit} :
      walk.queue = visit :: rest → walk.IsOpen visit →
      walk.plan.acceptsItem visit.item = true → visit.item ∈ walk.visiting →
      Moves resolver walk (walk.leave visit rest)
  | descend {visit : Visit} {rest : List Visit} {resolution : Resolution} :
      walk.queue = visit :: rest → walk.IsOpen visit →
      walk.plan.acceptsItem visit.item = true → visit.item ∉ walk.visiting →
      resolver.answer visit.item = .ok resolution →
      Moves resolver walk (walk.descend visit resolution)

/-- The steps that end a walk. -/
inductive Stops (resolver : Resolver) (walk : Walk) : Attempt Unit → Prop where
  | done : walk.queue = [] → Stops resolver walk ⟨.ok (), walk.plan⟩
  | unresolved {visit : Visit} {rest : List Visit} {fault : ResolutionFault} :
      walk.queue = visit :: rest → walk.IsOpen visit →
      walk.plan.acceptsItem visit.item = true → visit.item ∉ walk.visiting →
      resolver.answer visit.item = .error fault →
      Stops resolver walk
        ⟨.error (.unresolved visit.item fault), walk.plan.inquire visit.item⟩
  | cycle {visit : Visit} {rest : List Visit} {resolution : Resolution} {items : List WorkItem} :
      walk.queue = visit :: rest → walk.IsOpen visit →
      walk.plan.acceptsItem visit.item = true → visit.item ∉ walk.visiting →
      resolver.answer visit.item = .ok resolution →
      closedByAny (visit :: walk.path)
        (resolution.relations.dependencies.filter (· ∈ visit.item :: walk.visiting)) = some items →
      Stops resolver walk
        ⟨.error (.cycle (.path items)), (walk.descend visit resolution).plan⟩

/-- What a step does, whether the walk goes on or not. -/
def Takes (resolver : Resolver) (walk : Walk) : Progress → Prop
  | .going next => Moves resolver walk next
  | .stopped attempt => Stops resolver walk attempt

theorem takes_enter {visit : Visit} {rest : List Visit} (front : walk.queue = visit :: rest)
    (isOpen : walk.IsOpen visit) (accepted : walk.plan.acceptsItem visit.item = true)
    (fresh : visit.item ∉ walk.visiting) : Takes resolver walk (walk.enter resolver visit) := by
  unfold enter
  dsimp only
  split
  next fault failed => exact .unresolved front isOpen accepted fresh failed
  next resolution answered =>
    split
    next items closed => exact .cycle front isOpen accepted fresh answered closed
    next => exact .descend front isOpen accepted fresh answered

theorem takes_step (resolver : Resolver) (walk : Walk) :
    Takes resolver walk (walk.step resolver) := by
  unfold step
  split
  next empty => exact .done empty
  next visit rest front =>
    dsimp only
    split
    next shut =>
      exact .drop front fun isOpen => by simp [isOpen.1, isOpen.2] at shut
    next unshut =>
      have isOpen : walk.IsOpen visit := by simpa [IsOpen] using unshut
      split
      next rejected => exact .setAside front isOpen (by simpa using rejected)
      next unrejected =>
        have accepted : walk.plan.acceptsItem visit.item = true := by simpa using unrejected
        split
        next inside => exact .leave front isOpen accepted inside
        next outside => exact takes_enter front isOpen accepted outside

theorem Moves.of_step (goes : walk.step resolver = .going next) : Moves resolver walk next := by
  have takes := takes_step resolver walk
  rwa [goes] at takes

/-- Only the relations of an item that is met for the first time change. -/
theorem Moves.relations_of_met (moves : Moves resolver walk next) {item : WorkItem}
    (met : (walk.plan.node item).processed = true ∨ item ∈ walk.visiting) :
    next.plan.relations item = walk.plan.relations item := by
  cases moves with
  | drop => rfl
  | setAside => exact Plan.relations_setAside _ _ _
  | leave => exact Plan.relations_enroll _ _ _
  | @descend visit rest resolution front isOpen accepted outside answered =>
      have different : item ≠ visit.item := by
        rintro rfl
        rcases met with finished | inside
        · rw [isOpen.1] at finished
          cases finished
        · exact outside inside
      refine (Plan.relations_adopt_inquire _ _ _ _).trans ?_
      rw [if_neg different]

theorem Stops.of_step {attempt : Attempt Unit} (stopped : walk.step resolver = .stopped attempt) :
    Stops resolver walk attempt := by
  have takes := takes_step resolver walk
  rwa [stopped] at takes

/-- The walks to which the steps of a walk lead. -/
abbrev Reaches (resolver : Resolver) : Walk → Walk → Prop :=
  Relation.ReflTransGen (Moves resolver)

theorem Moves.keepsRequests (moves : Moves resolver walk next) :
    walk.plan.KeepsRequests next.plan := by
  cases moves <;> rfl

theorem Reaches.keepsRequests {last : Walk} (reaches : Reaches resolver walk last) :
    walk.plan.KeepsRequests last.plan := by
  induction reaches with
  | refl => rfl
  | tail _ moves ih => exact ih.trans moves.keepsRequests

/-- Only a walk that has nothing left to visit succeeds. -/
theorem Stops.of_ok {attempt : Attempt Unit} (stops : Stops resolver walk attempt)
    (succeeded : attempt.result = .ok ()) : walk.queue = [] ∧ attempt.plan = walk.plan := by
  cases stops with
  | done ended => exact ⟨ended, rfl⟩
  | unresolved => cases succeeded
  | cycle => cases succeeded

theorem Stops.keepsRequests {attempt : Attempt Unit} (stops : Stops resolver walk attempt) :
    walk.plan.KeepsRequests attempt.plan := by
  cases stops <;> rfl

theorem Moves.distinct (moves : Moves resolver walk next)
    (distinct : walk.plan.index.items.Nodup) : next.plan.index.items.Nodup := by
  cases moves with
  | drop => exact distinct
  | setAside => exact distinct
  | leave => exact ItemSet.nodup_insert distinct _
  | descend => exact distinct

theorem Reaches.distinct {last : Walk} (reaches : Reaches resolver walk last)
    (distinct : walk.plan.index.items.Nodup) : last.plan.index.items.Nodup := by
  induction reaches with
  | refl => exact distinct
  | tail _ moves ih => exact moves.distinct ih

theorem Stops.index_eq {attempt : Attempt Unit} (stops : Stops resolver walk attempt) :
    attempt.plan.index = walk.plan.index := by
  cases stops <;> rfl

end Walk

end TaskPlanner
