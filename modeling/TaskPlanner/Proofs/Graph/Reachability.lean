import Mathlib.Logic.Relation
import TaskPlanner.Graph

/-! Connecting items adds exactly the edges that were asked for. Reachability is the
closure of these edges, so an acyclic graph has no item that its own search meets. -/

set_option autoImplicit false

namespace TaskPlanner.Graph

variable {graph : Graph} {source target : WorkItem}

private theorem joins_connectIn {edge : Edge} {edges : List Edge} :
    (∃ other ∈ connectIn edge edges, other.source = source ∧ other.target = target) ↔
      (∃ other ∈ edges, other.source = source ∧ other.target = target) ∨
        (edge.source = source ∧ edge.target = target) := by
  induction edges with
  | nil => simp [connectIn]
  | cons head rest ih =>
      unfold connectIn
      split
      next same =>
        simp only [List.mem_cons, exists_eq_or_imp]
        obtain ⟨sameSource, sameTarget⟩ := same
        rw [← sameSource, ← sameTarget]
        constructor
        · rintro (here | there)
          · exact .inl (.inl here)
          · exact .inl (.inr there)
        · rintro ((here | there) | here)
          · exact .inl here
          · exact .inr there
          · exact .inl here
      next =>
        simp only [List.mem_cons, exists_eq_or_imp, ih]
        exact or_assoc.symm

/-- Connecting two items adds the edge between them and no other. -/
theorem adjacent_connect {before after : WorkItem} {kind : EdgeKind} :
    (graph.connect before after kind).Adjacent source target ↔
      graph.Adjacent source target ∨ (before = source ∧ after = target) :=
  joins_connectIn

/-- Add all of `edges`, in order. -/
def connectAll (graph : Graph) (edges : List Edge) : Graph :=
  edges.foldl (fun graph edge => graph.connect edge.source edge.target edge.kind) graph

theorem adjacent_connectAll {edges : List Edge} :
    (graph.connectAll edges).Adjacent source target ↔
      graph.Adjacent source target ∨
        ∃ edge ∈ edges, edge.source = source ∧ edge.target = target := by
  induction edges generalizing graph with
  | nil => simp [connectAll]
  | cons edge rest ih =>
      have step := @ih (graph.connect edge.source edge.target edge.kind)
      rw [adjacent_connect, or_assoc] at step
      simp only [List.mem_cons, exists_eq_or_imp]
      exact step

@[simp] theorem vertices_connectAll (graph : Graph) (edges : List Edge) :
    (graph.connectAll edges).vertices = graph.vertices := by
  induction edges generalizing graph with
  | nil => rfl
  | cons edge rest ih => exact ih (graph.connect edge.source edge.target edge.kind)

theorem mem_successors :
    target ∈ graph.successors source ↔ graph.Adjacent source target := by
  simp only [successors, List.mem_map, List.mem_filter, decide_eq_true_eq, Adjacent, and_assoc]

theorem mem_predecessors :
    source ∈ (graph.predecessors target).map (·.1) ↔ graph.Adjacent source target := by
  simp only [predecessors, List.map_map, List.mem_map, List.mem_filter, decide_eq_true_eq,
    Adjacent, Function.comp_apply, and_assoc]
  constructor
  · rintro ⟨edge, member, same, rfl⟩
    exact ⟨edge, member, rfl, same⟩
  · rintro ⟨edge, member, rfl, same⟩
    exact ⟨edge, member, same, rfl⟩

/-! ## At most one edge joins two items -/

/-- No two edges join the same items. -/
def IsSimple (graph : Graph) : Prop :=
  graph.edges.Pairwise fun left right => ¬ (left.source = right.source ∧ left.target = right.target)

private theorem source_target_connectIn {edge other : Edge} {edges : List Edge}
    (member : other ∈ connectIn edge edges) :
    (other.source = edge.source ∧ other.target = edge.target) ∨
      ∃ old ∈ edges, other.source = old.source ∧ other.target = old.target := by
  rcases joins_connectIn.mp ⟨other, member, rfl, rfl⟩ with
    ⟨old, present, source, target⟩ | ⟨source, target⟩
  · exact .inr ⟨old, present, source.symm, target.symm⟩
  · exact .inl ⟨source.symm, target.symm⟩

private theorem pairwise_connectIn {edge : Edge} {edges : List Edge}
    (simple : edges.Pairwise fun left right =>
      ¬ (left.source = right.source ∧ left.target = right.target)) :
    (connectIn edge edges).Pairwise fun left right =>
      ¬ (left.source = right.source ∧ left.target = right.target) := by
  induction edges with
  | nil => exact List.pairwise_singleton _ _
  | cons head rest ih =>
      obtain ⟨apart, restSimple⟩ := List.pairwise_cons.mp simple
      unfold connectIn
      split
      next => exact List.pairwise_cons.mpr ⟨apart, restSimple⟩
      next different =>
        refine List.pairwise_cons.mpr ⟨?_, ih restSimple⟩
        intro other member joined
        rcases source_target_connectIn member with ⟨source, target⟩ | ⟨old, present, source, target⟩
        · exact different ⟨joined.1.trans source, joined.2.trans target⟩
        · exact apart old present ⟨joined.1.trans source, joined.2.trans target⟩

theorem IsSimple.connectAll (simple : graph.IsSimple) (edges : List Edge) :
    (graph.connectAll edges).IsSimple := by
  induction edges generalizing graph with
  | nil => exact simple
  | cons edge rest ih => exact @ih (graph.connect _ _ _) (pairwise_connectIn simple)

/-- In a simple graph, an item waits for each of its predecessors for one reason. -/
theorem IsSimple.nodup_predecessors (simple : graph.IsSimple) (item : WorkItem) :
    ((graph.predecessors item).map (·.1)).Nodup := by
  unfold predecessors
  rw [List.map_map]
  have among : (graph.edges.filter (·.target = item)).Pairwise fun left right =>
      left.source ≠ right.source := by
    refine List.Pairwise.imp_of_mem ?_ (simple.filter _)
    intro left right leftMember rightMember apart same
    have leftTarget : left.target = item := by simpa using (List.mem_filter.mp leftMember).2
    have rightTarget : right.target = item := by simpa using (List.mem_filter.mp rightMember).2
    exact apart ⟨same, leftTarget.trans rightTarget.symm⟩
  exact List.pairwise_map.mpr among

/-! ## Edges between vertices -/

/-- Every edge joins two vertices. -/
def IsSpanned (graph : Graph) : Prop :=
  ∀ source target, graph.Adjacent source target →
    source ∈ graph.vertices ∧ target ∈ graph.vertices

theorem IsSpanned.mem_of_adjacent (spanned : graph.IsSpanned) (before after : WorkItem)
    (adjacent : graph.Adjacent before after) : before ∈ graph.vertices :=
  (spanned before after adjacent).1

theorem IsSpanned.mem_of_reaches (spanned : graph.IsSpanned)
    (reaches : graph.Reaches source target) : target ∈ graph.vertices := by
  cases reaches with
  | edge adjacent => exact (spanned _ _ adjacent).2
  | trans _ adjacent => exact (spanned _ _ adjacent).2

/-! ## Searches -/

theorem Reaches.append {middle : WorkItem}
    (first : graph.Reaches source middle) (second : graph.Reaches middle target) :
    graph.Reaches source target := by
  induction second with
  | edge adjacent => exact .trans first adjacent
  | trans _ adjacent ih => exact .trans ih adjacent

theorem Reaches.exists_adjacent (reaches : graph.Reaches source target) :
    ∃ next, graph.Adjacent source next := by
  induction reaches with
  | edge adjacent => exact ⟨_, adjacent⟩
  | trans _ _ ih => exact ih

theorem reaches_iff_transGen :
    graph.Reaches source target ↔ Relation.TransGen graph.Adjacent source target := by
  constructor
  · intro reaches
    induction reaches with
    | edge adjacent => exact .single adjacent
    | trans _ adjacent ih => exact .tail ih adjacent
  · intro steps
    induction steps with
    | single adjacent => exact .edge adjacent
    | tail _ adjacent ih => exact .trans ih adjacent

/-- What a search finds has a property that steps preserve. -/
theorem spread_sound {steps : WorkItem → List WorkItem} {rounds : Nat}
    {found frontier : List WorkItem} {reached : WorkItem → Prop}
    (preserved : ∀ item, reached item → ∀ next ∈ steps item, reached next)
    (foundReached : ∀ item ∈ found, reached item)
    (frontierReached : ∀ item ∈ frontier, reached item) :
    ∀ item ∈ spread steps rounds found frontier, reached item := by
  induction rounds generalizing found frontier with
  | zero => exact foundReached
  | succ rounds ih =>
      have freshReached : ∀ item ∈ ((frontier.flatMap steps).eraseDups).filter (· ∉ found),
          reached item := by
        intro item member
        have stepped := List.mem_eraseDups.mp (List.mem_filter.mp member).1
        obtain ⟨origin, known, next⟩ := List.mem_flatMap.mp stepped
        exact preserved origin (frontierReached origin known) item next
      unfold spread
      dsimp only
      split
      · exact foundReached
      · refine ih ?_ freshReached
        intro item member
        rcases List.mem_append.mp member with old | new
        · exact foundReached item old
        · exact freshReached item new

theorem reaches_of_mem_descendants (member : target ∈ graph.descendants source) :
    graph.Reaches source target := by
  have children : ∀ item ∈ (graph.successors source).eraseDups, graph.Reaches source item :=
    fun item child => .edge (mem_successors.mp (List.mem_eraseDups.mp child))
  exact spread_sound
    (fun item reached next adjacent => .trans reached (mem_successors.mp adjacent))
    children children target member

/-- No cycle is reported for an acyclic graph, whatever order its items are left in. -/
theorem Acyclic.cycle?_eq_none (acyclic : graph.Acyclic) : graph.cycle? = none := by
  have noneCyclic : graph.vertices.filter graph.isCyclic = [] := by
    rw [List.filter_eq_nil_iff]
    intro item _ cyclic
    exact acyclic item (reaches_of_mem_descendants (of_decide_eq_true cyclic))
  unfold cycle?
  dsimp only
  split
  · rfl
  · have noneKept :
        graph.completionOrder.filter (· ∈ graph.vertices.filter graph.isCyclic) = [] := by
      simp [noneCyclic]
    rw [noneKept, noneCyclic]
    rfl

/-- A rank that no edge lowers and some edges raise confines cycles to the other edges. -/
theorem Reaches.confined_or_rank_lt {confined : Graph} {rank : WorkItem → Nat}
    (edges : ∀ source target, graph.Adjacent source target →
      (confined.Adjacent source target ∧ rank source ≤ rank target) ∨ rank source < rank target)
    (reaches : graph.Reaches source target) :
    (confined.Reaches source target ∧ rank source ≤ rank target) ∨ rank source < rank target := by
  induction reaches with
  | edge adjacent =>
      rcases edges _ _ adjacent with ⟨inside, rises⟩ | rises
      · exact .inl ⟨.edge inside, rises⟩
      · exact .inr rises
  | trans _ adjacent ih =>
      rcases ih with ⟨within, before⟩ | before <;>
        rcases edges _ _ adjacent with ⟨inside, rises⟩ | rises
      · exact .inl ⟨.trans within inside, Nat.le_trans before rises⟩
      · exact .inr (Nat.lt_of_le_of_lt before rises)
      · exact .inr (Nat.lt_of_lt_of_le before rises)
      · exact .inr (Nat.lt_trans before rises)

theorem Acyclic.of_rank {confined : Graph} (acyclic : confined.Acyclic)
    (rank : WorkItem → Nat)
    (edges : ∀ source target, graph.Adjacent source target →
      (confined.Adjacent source target ∧ rank source ≤ rank target) ∨ rank source < rank target) :
    graph.Acyclic := by
  intro item reaches
  rcases reaches.confined_or_rank_lt edges with ⟨within, _⟩ | impossible
  · exact acyclic item within
  · exact Nat.lt_irrefl _ impossible

end TaskPlanner.Graph
