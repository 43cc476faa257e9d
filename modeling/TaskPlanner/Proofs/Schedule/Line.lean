import TaskPlanner.Proofs.Schedule.WellFormed

/-! What one worker finds when the nodes in `ran` have run, one at a time and with success: which
items have ended, which nodes are due, and which finalizers stand in line to go before all other
nodes. All of it can be read off the schedule. -/

set_option autoImplicit false

namespace TaskPlanner

/-- Whether the node has to be handed out: markers and what was executed before have no work. -/
def ScheduledNode.isWork (node : ScheduledNode) : Bool := !node.isMarker && !node.isExecuted

namespace Schedule

variable {schedule : Schedule} {node next other : ScheduledNode}
  {ran done rest earlier later : List ScheduledNode} {item : WorkItem}

/-- The nodes that are handed out. -/
def works (schedule : Schedule) : List ScheduledNode := schedule.nodes.filter (·.isWork)

/-- A node has ended if it ran, or if it has no work and all that it waits for has ended. -/
def pass (ran : List ScheduledNode) (ended : List WorkItem) (node : ScheduledNode) :
    List WorkItem :=
  if node ∈ ran ∨ node.isWork = false ∧ ∀ waited ∈ node.predecessors, waited.1 ∈ ended then
    node.item :: ended
  else ended

/-- The items that have ended once the nodes in `ran` have. -/
def ended (schedule : Schedule) (ran : List ScheduledNode) : List WorkItem :=
  schedule.nodes.foldl (pass ran) []

/-- Whether a node can start now, if nothing is locked. -/
def isDue (schedule : Schedule) (ran : List ScheduledNode) (node : ScheduledNode) : Bool :=
  decide (node.item ∉ schedule.ended ran) &&
    node.predecessors.all fun waited => decide (waited.1 ∈ schedule.ended ran)

/-- The line once `node` has run: it and those in front of it leave, its finalizers join. -/
def advance (schedule : Schedule) (line : List ScheduledNode) (node : ScheduledNode) :
    List ScheduledNode :=
  (line.dropWhile (· ≠ node)).tail ++
    schedule.nodes.filter fun finalizer => decide (node.item ∈ finalizer.finalizes)

/-- The finalizers that stand in line once the nodes in `ran` have run, in that order. -/
def line (schedule : Schedule) (ran : List ScheduledNode) : List ScheduledNode :=
  ran.foldl schedule.advance []

/-- The first node in line that can start. -/
def firstInLine? (schedule : Schedule) (ran : List ScheduledNode) : Option ScheduledNode :=
  (schedule.line ran).find? (schedule.isDue ran)

theorem line_concat (schedule : Schedule) (ran : List ScheduledNode) (node : ScheduledNode) :
    schedule.line (ran ++ [node]) = schedule.advance (schedule.line ran) node := by
  unfold line
  rw [List.foldl_append]
  rfl

theorem isDue_iff :
    schedule.isDue ran node = true ↔ node.item ∉ schedule.ended ran ∧
      ∀ waited ∈ node.predecessors, waited.1 ∈ schedule.ended ran := by
  simp only [isDue, Bool.and_eq_true, decide_eq_true_eq, List.all_eq_true]

theorem mem_works : node ∈ schedule.works ↔ node ∈ schedule.nodes ∧ node.isWork = true :=
  List.mem_filter

theorem WellFormed.nodup_nodes (wellFormed : schedule.WellFormed) : schedule.nodes.Nodup :=
  List.Nodup.of_map _ wellFormed.distinct

theorem WellFormed.nodup_works (wellFormed : schedule.WellFormed) : schedule.works.Nodup :=
  wellFormed.nodup_nodes.filter _

/-! ## What has ended -/

theorem mem_pass (different : item ≠ node.item) (before : List WorkItem) :
    item ∈ pass ran before node ↔ item ∈ before := by
  unfold pass
  split
  · rw [List.mem_cons, or_iff_right different]
  · rfl

/-- Passing nodes decides about their own items only. -/
theorem mem_foldl_pass {nodes : List ScheduledNode} (absent : item ∉ nodes.map (·.item))
    (before : List WorkItem) : item ∈ nodes.foldl (pass ran) before ↔ item ∈ before := by
  induction nodes generalizing before with
  | nil => rfl
  | cons head tail ih =>
      rw [List.map_cons, List.mem_cons, not_or] at absent
      rw [List.foldl_cons, ih absent.2, mem_pass absent.1]

theorem ended_split (split : schedule.nodes = earlier ++ node :: later) :
    schedule.ended ran =
      later.foldl (pass ran) (pass ran (earlier.foldl (pass ran) []) node) := by
  rw [ended, split, List.foldl_append, List.foldl_cons]

/-- What stands in front of a node was decided when the node was passed. -/
theorem mem_ended_front (split : schedule.nodes = earlier ++ node :: later)
    (absent : item ∉ later.map (·.item)) (different : item ≠ node.item) :
    item ∈ schedule.ended ran ↔ item ∈ earlier.foldl (pass ran) [] := by
  rw [ended_split split, mem_foldl_pass absent, mem_pass different]

theorem WellFormed.mem_ended (wellFormed : schedule.WellFormed) (member : node ∈ schedule.nodes) :
    node.item ∈ schedule.ended ran ↔
      node ∈ ran ∨ node.isWork = false ∧
        ∀ waited ∈ node.predecessors, waited.1 ∈ schedule.ended ran := by
  obtain ⟨earlier, later, split⟩ := List.append_of_mem member
  have distinct : ((earlier.map (·.item)) ++ node.item :: later.map (·.item)).Nodup := by
    have whole := wellFormed.distinct
    rwa [items, split, List.map_append, List.map_cons] at whole
  obtain ⟨_, tailDistinct, apart⟩ := List.nodup_append.mp distinct
  have last : node.item ∉ later.map (·.item) := (List.nodup_cons.mp tailDistinct).1
  have unseen : node.item ∉ earlier.map (·.item) := fun present =>
    apart _ present _ List.mem_cons_self rfl
  have fresh : node.item ∉ earlier.foldl (pass ran) [] := by
    rw [mem_foldl_pass unseen]
    exact List.not_mem_nil
  have decided : ∀ waited ∈ node.predecessors,
      (waited.1 ∈ schedule.ended ran ↔ waited.1 ∈ earlier.foldl (pass ran) []) := by
    intro waited waits
    have placed := wellFormed.ordered earlier node later split waited waits
    apply mem_ended_front split
    · intro present
      exact apart _ placed _ (List.mem_cons_of_mem _ present) rfl
    · intro same
      exact unseen (same ▸ placed)
  rw [forall₂_congr decided, ended_split split, mem_foldl_pass last]
  unfold pass
  split
  next passed => exact iff_of_true List.mem_cons_self passed
  next stopped => exact iff_of_false fresh stopped

/-! ## The next node of the schedule -/

theorem exists_split (split : schedule.works = done ++ next :: rest) :
    ∃ earlier later, schedule.nodes = earlier ++ next :: later ∧
      earlier.filter (·.isWork) = done := by
  obtain ⟨front, back, nodes, rfl, backed⟩ := List.filter_eq_append_iff.mp split
  obtain ⟨passed, later, rfl, idle, _, rfl⟩ := List.filter_eq_cons_iff.mp backed
  refine ⟨front ++ passed, later, by rw [nodes, List.append_assoc], ?_⟩
  rw [List.filter_append, List.filter_eq_nil_iff.mpr idle, List.append_nil]

/-- When all work up to a point of the schedule has run, everything up to there has ended. -/
theorem WellFormed.mem_ended_of_mem (wellFormed : schedule.WellFormed)
    (split : schedule.nodes = earlier ++ later) (worked : earlier.filter (·.isWork) = done)
    (member : node ∈ earlier) : node.item ∈ schedule.ended done := by
  have listed : node ∈ schedule.nodes := split ▸ List.mem_append_left _ member
  refine wellFormed.induction
    (motive := fun item => item ∈ earlier.map (·.item) → item ∈ schedule.ended done)
    (fun other present before inside => ?_) node.item (mem_items listed)
    (List.mem_map_of_mem member)
  obtain ⟨same, placed, named⟩ := List.mem_map.mp inside
  have scheduled : same ∈ schedule.nodes := split ▸ List.mem_append_left _ placed
  cases wellFormed.node_unique scheduled present named
  rw [wellFormed.mem_ended present]
  cases work : other.isWork with
  | true => exact .inl (worked ▸ List.mem_filter.mpr ⟨placed, work⟩)
  | false =>
      exact .inr ⟨rfl, fun waited waits =>
        before waited waits (wellFormed.mem_front split placed waits)⟩

/-- The first node of the schedule that has not run is due, and none in front of it is. -/
theorem WellFormed.find?_isDue (wellFormed : schedule.WellFormed)
    (split : schedule.works = done ++ next :: rest) :
    schedule.nodes.find? (schedule.isDue done) = some next := by
  obtain ⟨earlier, later, nodes, worked⟩ := exists_split split
  have member : next ∈ schedule.nodes := nodes ▸ List.mem_append_cons_self
  have work : next.isWork = true := (mem_works.mp (split ▸ List.mem_append_cons_self)).2
  have unrun : next ∉ done := by
    have distinct := wellFormed.nodup_works
    rw [split] at distinct
    exact fun present => (List.nodup_append.mp distinct).2.2 _ present _ List.mem_cons_self rfl
  have due : schedule.isDue done next = true := by
    refine isDue_iff.mpr ⟨?_, fun waited waits => ?_⟩
    · rw [wellFormed.mem_ended member, work]
      simp [unrun]
    · obtain ⟨before, placed, named⟩ :=
        List.mem_map.mp (wellFormed.ordered earlier next later nodes waited waits)
      exact named ▸ wellFormed.mem_ended_of_mem nodes worked placed
  refine List.find?_eq_some_iff_append.mpr ⟨due, earlier, later, nodes, fun other placed => ?_⟩
  have passed := wellFormed.mem_ended_of_mem nodes worked placed
  simp [isDue, passed]

end Schedule

end TaskPlanner
